import TabStop.Proofs.Code.Evaluation

/-!
# What a python block has read

A python block reads the texts of tab stops as they are when it is run. These texts are final if what
they are made of is: all blocks in the tab stops, and in those that are repeated in them, have been
run before, and bringing the document up to date changes nothing there. Then running the block again in
the end would put out the same.
-/

namespace TabStop

/-! ## The text of one index -/

namespace Values

variable {i j : TabIndex} {r s : String} {vs ws : Values}

/-- Two lists of texts that differ in the texts of other indexes than `i` at most. -/
def AgreeAt (i : TabIndex) : Values → Values → Prop :=
  List.Forall₂ fun v w => v.1 = w.1 ∧ (v.1 = i → v.2 = w.2)

theorem AgreeAt.get?_eq (h : AgreeAt i vs ws) : vs.get? i = ws.get? i := by
  induction h with
  | nil => rfl
  | @cons v w vs ws hvw _ ih =>
    obtain ⟨hindex, htext⟩ := hvw
    rw [get?, get?, List.lookup_cons, List.lookup_cons, ← hindex]
    by_cases hv : i = v.1
    · simp [hv, htext hv.symm]
    · rw [beq_eq_false_iff_ne.2 hv]
      exact ih

theorem AgreeAt.add (h : AgreeAt i vs ws) (hrs : j = i → r = s) :
    AgreeAt i (vs.add j r) (ws.add j s) := by
  induction h with
  | nil => exact .cons ⟨rfl, hrs⟩ .nil
  | @cons v w vs ws hvw hrest ih =>
    obtain ⟨k, _⟩ := v
    obtain ⟨k', _⟩ := w
    obtain ⟨rfl, htext⟩ := hvw
    simp only [Values.add]
    split
    · exact .cons ⟨rfl, htext⟩ hrest
    · split
      · exact .cons ⟨rfl, hrs⟩ (.cons ⟨rfl, htext⟩ hrest)
      · exact .cons ⟨rfl, htext⟩ ih

end Values

/-- What an evaluator puts out for a python block is told by the code, and by the texts of the tab stops
that the block reads. -/
def Evaluator.ReadsRelated (ev : Evaluator) : Prop :=
  ∀ calls calls' c c', c.block.kind = .python → c'.block.kind = .python →
    c'.block.code = c.block.code →
      (∀ n ∈ c.block.related, c'.values.get? (.ofNat n) = c.values.get? (.ofNat n)) →
        ev calls' c' = ev calls c

namespace Tree

variable {t u v : Tree} (ev : Evaluator) {e : Evaluation} {b h m p q x : Handle}
  {blocks hs pre post : List Handle} {S : Handle → Prop} {i j : TabIndex} {k : CodeBlock}
  {vs ws : Values}

/-- The texts of tab stops that show the same agree. -/
private theorem agreeAt_foldl (hindex : ∀ q ∈ hs, u.index? q = t.index? q)
    (hrender : ∀ q ∈ hs, t.index? q = some i → u.render q = t.render q)
    (hvs : Values.AgreeAt i vs ws) :
    Values.AgreeAt i
      (hs.foldl (fun vs h => match u.index? h with
        | some i => vs.add i (u.render h)
        | none => vs) vs)
      (hs.foldl (fun vs h => match t.index? h with
        | some i => vs.add i (t.render h)
        | none => vs) ws) := by
  -- Induction on the tab stops whose values are still to be added
  induction hs generalizing vs ws with
  | nil => exact hvs
  | cons q hs ih =>
    obtain ⟨hq, hindex⟩ := List.forall_mem_cons.1 hindex
    obtain ⟨htext, hrender⟩ := List.forall_mem_cons.1 hrender
    rw [List.foldl_cons, List.foldl_cons, hq]
    apply ih hindex hrender
    cases hj : t.index? q with
    | none => exact hvs
    | some j => exact hvs.add fun hji => htext (hj.trans (congrArg some hji))

/-- The text of an index is told by what its primary tab stops show. -/
theorem get?_values_congr (hprimaries : u.primaries = t.primaries)
    (hindex : ∀ q ∈ t.primaries, u.index? q = t.index? q)
    (hrender : ∀ q ∈ t.primaries, t.index? q = some i → u.render q = t.render q) :
    u.values.get? i = t.values.get? i := by
  rw [values, values, hprimaries]
  exact (agreeAt_foldl hindex hrender .nil).get?_eq

/-! ## Tab stops that show the same -/

/-- What is inside of a primary tab stop that is `S` follows only such. -/
def Closed (t : Tree) (S : Handle → Prop) : Prop :=
  ∀ q ∈ t.primaries, S q → ∀ p ∈ t.leaders, ∀ m ∈ t.walk q, t.Follows m p → S p

/-- Nothing changes in the primary tab stops that are `S` when all tab stops are repeated: these are
settled, and what is inside of them follows only such. -/
structure Sealed (t : Tree) (S : Handle → Prop) : Prop where
  settled : ∀ p ∈ t.leaders, S p → t.Settled p
  closed : t.Closed S

/-- The primary tab stops that are `S` show in `u` what they show in `t`. -/
def SameTexts (t u : Tree) (S : Handle → Prop) : Prop :=
  ∀ q ∈ t.primaries, S q → u.render q = t.render q

theorem Closed.alike (hs : t.Closed S) (ha : Alike t u) (hl : t.WellLinked) : u.Closed S := by
  intro q hq hSq p hp m hm hf
  rw [ha.primaries_eq hl] at hq
  rw [ha.leaders_eq hl] at hp
  rw [ha.follows_iff hl (mem_leaders_iff.1 hp).1] at hf
  rw [ha.mem_walk_iff hl (hl.mem_frame_of_primary hq) (hl.mem_frame_of_placeholder hf.mem)] at hm
  exact hs q hq hSq p hp m hm hf

theorem SameTexts.refl (t : Tree) (S : Handle → Prop) : SameTexts t t S := fun _ _ _ => rfl

theorem SameTexts.trans (hu : SameTexts t u S) (hv : SameTexts u v S)
    (hprimaries : u.primaries = t.primaries) : SameTexts t v S := by
  intro q hq hSq
  rw [hv q (hprimaries ▸ hq) hSq, hu q hq hSq]

namespace Sealed

theorem turn (hs : t.Sealed S) (ht : t.Steady) (hp : p ∈ t.leaders) :
    (t.turn p).Sealed S ∧ SameTexts t (t.turn p) S := by
  have hl := ht.wellLinked
  by_cases hSp : S p
  · rw [ht.turn_of_settled (hs.settled p hp hSp)]
    exact ⟨hs, .refl t S⟩
  · obtain ⟨hr, -⟩ := ht.calm.turn hl hp
    obtain ⟨done, hturning, -⟩ := ht.turning hp
    -- What comes to show another text is not inside of a tab stop that is `S`
    have hout {q m : Handle} (hq : q ∈ t.primaries) (hSq : S q) (hf : t.Follows m p) :
        m ∉ t.walk q := fun hm => hSp (hs.closed q hq hSq p hp m hm hf)
    refine ⟨⟨fun q hq hSq => ?_, hs.closed.alike hr.toAlike hl⟩, fun q hq hSq => ?_⟩
    · have hqt := hr.leaders_eq hl ▸ hq
      refine hturning.writes.settled hl ?_ (mem_leaders_iff.1 hq).1 (hs.settled q hqt hSq)
      rintro m _ ⟨hf, -⟩
      refine ⟨fun heq => hSp ?_, hout (List.mem_filter.1 hqt).1 hSq hf⟩
      rwa [ht.single p hp q hqt (hf.index?_eq.symm.trans heq)]
    · apply hturning.writes.render_of_outside hl
      · rintro m _ ⟨hf, -⟩
        exact hout hq hSq hf
      · rw [hr.placeholders_eq hl]
        exact (List.mem_filter.1 hq).1

theorem repeatPass (hs : t.Sealed S) (ht : t.Steady) :
    t.repeatPass.2.Sealed S ∧ SameTexts t t.repeatPass.2 S := by
  refine (ht.pass_induction (P := fun _ u => (Retold t u ∧ u.Calm) ∧ u.Sealed S ∧ SameTexts t u S)
    ⟨⟨.refl ht.wellLinked, ht.calm⟩, hs, .refl t S⟩ (fun _ _ hu => hu) ?_).2.2
  rintro _ u p - hu hp ⟨⟨hr, hcalm⟩, hsu, hsame⟩
  obtain ⟨hturn, hlast⟩ := hcalm.turn hr.wellLinked hp
  obtain ⟨hsealed, hnext⟩ := hsu.turn ⟨hu, hcalm⟩ hp
  exact ⟨⟨hr.trans hturn, hlast⟩, hsealed, hsame.trans hnext (hr.primaries_eq ht.wellLinked)⟩

theorem repeatPasses (hs : t.Sealed S) (ht : t.Steady) (n : Nat) :
    (repeatPasses n t).Sealed S ∧ SameTexts t (repeatPasses n t) S := by
  have hl := ht.wellLinked
  induction n generalizing t with
  | zero => exact ⟨hs, .refl t S⟩
  | succ n ih =>
    obtain ⟨hr, hcalm⟩ := ht.calm.repeatPass ht.toRepeatable
    obtain ⟨hpass, hsame⟩ := hs.repeatPass ht
    rw [Repeatable.repeatPasses_eq hl]
    obtain ⟨hlast, hrest⟩ := ih hpass ⟨hr.repeatable ht.toRepeatable, hcalm⟩ hr.wellLinked
    exact ⟨hlast, hsame.trans hrest (hr.primaries_eq hl)⟩

theorem output (hs : t.Sealed S) (hl : t.WellLinked) (hh : t.InUse h) (hk : t.code? h = some k)
    (hout : ∀ q ∈ t.primaries, S q → h ∉ t.walk q) (s : String) :
    (t.output h k s).Sealed S ∧ SameTexts t (t.output h k s) S := by
  have ha := alike_output (s := s) hl hh hk
  refine ⟨⟨fun p hp hSp => ?_, hs.closed.alike ha hl⟩, fun q hq hSq => ?_⟩
  · rw [ha.leaders_eq hl] at hp
    exact (hs.settled p hp hSp).output hl hh hk (mem_leaders_iff.1 hp).1
      (hout p (List.mem_filter.1 hp).1 hSp)
  · exact render_output hl hh (hl.inUse_of_mem_placeholders (List.mem_filter.1 hq).1)
      (hout q hq hSq)

/-- A block that is in none of them is run. -/
theorem run (hs : e.tree.Sealed S) (ht : e.tree.Steady) (hh : h ∈ e.tree.codeBlocks)
    (hout : ∀ q ∈ e.tree.primaries, S q → h ∉ e.tree.walk q) :
    (e.run ev h).tree.Sealed S ∧ SameTexts e.tree (e.run ev h).tree S := by
  have hl := ht.wellLinked
  have hhu := hl.inUse_of_mem_frame (hl.mem_frame_of_code hh)
  obtain ⟨k, hk, hrun⟩ := run_eq ev hl hh
  rw [hrun]
  generalize (ev e.calls (e.tree.callOf h k)).getD "" = s
  obtain ⟨hsealed, hsame⟩ := hs.output hl hhu hk hout s
  simp only
  split
  · obtain ⟨hlast, hrest⟩ := hsealed.repeatPasses (ht.output hhu hk)
      ((e.tree.output h k s).placeholders.length + 1)
    have ha := alike_output (s := s) hl hhu hk
    exact ⟨hlast, hsame.trans hrest (ha.primaries_eq hl)⟩
  · exact ⟨hsealed, hsame⟩

theorem runs (hs : e.tree.Sealed S) (ht : e.tree.Steady) (hblocks : blocks ⊆ e.tree.codeBlocks)
    (hout : ∀ q ∈ e.tree.primaries, S q → ∀ h ∈ blocks, h ∉ e.tree.walk q) :
    SameTexts e.tree (blocks.foldl (Evaluation.run ev) e).tree S := by
  induction blocks generalizing e with
  | nil => exact .refl e.tree S
  | cons h blocks ih =>
    have hl := ht.wellLinked
    obtain ⟨hh, hblocks⟩ := List.cons_subset.1 hblocks
    obtain ⟨ha, hsteady, -⟩ := ht.run ev hh
    obtain ⟨hsealed, hfirst⟩ := hs.run ev ht hh fun q hq hSq =>
      hout q hq hSq h (List.mem_cons_self ..)
    refine hfirst.trans (ih hsealed hsteady (ha.codeBlocks_eq hl ▸ hblocks) ?_) (ha.primaries_eq hl)
    intro q hq hSq x hx
    rw [ha.primaries_eq hl] at hq
    rw [ha.mem_walk_iff hl (hl.mem_frame_of_primary hq) (hl.mem_frame_of_code (hblocks hx))]
    exact hout q hq hSq x (List.mem_cons_of_mem _ hx)

end Sealed

/-! ## What a block reads -/

/-- A primary tab stop makes a part of what a block reads: the block reads its index, or an index that
holds it in some steps. -/
def Supplies (t : Tree) (b q : Handle) : Prop :=
  q ∈ t.primaries ∧ ∃ n ∈ t.related b, ∃ i, t.index? q = some i ∧
    Relation.ReflTransGen t.Holds (.ofNat n) i

theorem Supplies.of_follows (hq : t.Supplies b q) (ht : t.Repeatable) (hp : p ∈ t.leaders)
    (hm : m ∈ t.walk q) (hf : t.Follows m p) : t.Supplies b p := by
  obtain ⟨hqmem, n, hn, i, hi, hreach⟩ := hq
  obtain ⟨j, hj, hfinal⟩ := exists_index?_of_mem_leaders hp
  have hpmem := (List.mem_filter.1 hp).1
  by_cases hji : j = i
  · subst hji
    exact ⟨hpmem, n, hn, j, hj, hreach⟩
  · have hholds : t.Holds i j :=
      ⟨hfinal, hji, q, hqmem, hi, m, hm, ht.not_primary hp hf, hf.index?_eq.trans hj⟩
    exact ⟨hpmem, n, hn, j, hj, hreach.tail hholds⟩

/-- A block is run before another one. -/
def RunsBefore (t : Tree) (h b : Handle) : Prop :=
  ∃ pre post, t.schedule = pre ++ b :: post ∧ h ∈ pre

/-- All that a block reads has been made when it is run: each block in a tab stop that supplies it is
run before, and makes the text of a tab stop, so that it is repeated at once. Only in a final tab stop
there may be other blocks, because it is not repeated. -/
structure Ready (t : Tree) (b : Handle) : Prop where
  grounded : ∀ n ∈ t.related b, t.Grounded (.ofNat n)
  before : ∀ q, t.Supplies b q → ∀ h ∈ t.codeBlocks, h ∈ t.walk q → t.RunsBefore h b
  bound : ∀ q, t.Supplies b q → t.isFinal q = false →
    ∀ h ∈ t.codeBlocks, h ∈ t.walk q → (t.boundIndex? h).isSome

/-- Nothing is done any more in the tab stops that supply a block, in a tree of the frame whose tab
stops have been repeated. -/
theorem Ready.sealed (hb : t.Ready b) (ht : t.Repeatable) (ha : Alike t u) (hu : u.Tended) :
    u.Sealed (t.Supplies b) := by
  have hl := ht.wellLinked
  have hclosed : t.Closed (t.Supplies b) := fun q _ hSq p hp m hm hf => hSq.of_follows ht hp hm hf
  refine ⟨fun p hp hSp => ?_, hclosed.alike ha hl⟩
  have hpt := hp
  rw [ha.leaders_eq hl] at hpt
  obtain ⟨hpmem, -, hfinal⟩ := mem_leaders_iff.1 hpt
  have hpf := hl.mem_frame_of_placeholder hpmem
  have ⟨_, n, hn, i, hi, hreach⟩ := hSp
  have hground := ha.grounded hl ((hb.grounded n hn).of_holds hreach)
  refine hu p hp i ((ha.index?_eq hl hpf).trans hi) hground fun x hx hxp => ?_
  rw [ha.codeBlocks_eq hl] at hx
  have hxf := hl.mem_frame_of_code hx
  rw [ha.boundIndex?_eq hl hxf]
  exact hb.bound p hSp hfinal x hx ((ha.mem_walk_iff hl hpf hxf).1 hxp)

/-! ## Fresh outputs -/

/-- A block stands once in the order of all blocks. -/
theorem WellLinked.schedule_split (hl : t.WellLinked) (hsplit : t.schedule = pre ++ b :: post) :
    List.Disjoint pre (b :: post) ∧ b ∉ post := by
  have hnodup := hl.nodup_schedule
  rw [hsplit, List.nodup_append', List.nodup_cons] at hnodup
  exact ⟨hnodup.2.2, hnodup.2.1.1⟩

theorem RunsBefore.not_mem (hh : t.RunsBefore h b) (hl : t.WellLinked)
    (hsplit : t.schedule = pre ++ b :: post) : h ∉ b :: post := by
  obtain ⟨pre', post', hsplit', hmem⟩ := hh
  obtain ⟨hdisjoint, honce⟩ := hl.schedule_split hsplit
  -- So the order is cut at the block in one way only
  rw [hsplit, List.append_cons_inj_of_notMem
    (fun hb => hdisjoint hb (List.mem_cons_self ..)) honce] at hsplit'
  obtain ⟨rfl, -, -⟩ := hsplit'
  exact fun hlater => hdisjoint hmem hlater

/-- When the blocks before a block that is ready have been run, what it reads does not change any more. -/
theorem Ready.get?_values (hready : t.Ready b) (ht : t.Steady) (hsplit : t.schedule = pre ++ b :: post)
    (ha : Alike t e.tree) (hsteady : e.tree.Steady) (htended : e.tree.Tended) {n : Nat}
    (hn : n ∈ t.related b) :
    ((b :: post).foldl (Evaluation.run ev) e).tree.values.get? (.ofNat n) =
      e.tree.values.get? (.ofNat n) := by
  have hl := ht.wellLinked
  have hel := hsteady.wellLinked
  have hlater : b :: post ⊆ e.tree.codeBlocks := by
    have hsub := t.schedule_subset
    rw [hsplit, ← ha.codeBlocks_eq hl] at hsub
    exact (List.append_subset.1 hsub).2
  have hsealed := hready.sealed ht.toRepeatable ha htended
  -- The block and those after it are in nothing that it reads
  have hout : ∀ q ∈ e.tree.primaries, t.Supplies b q → ∀ h ∈ b :: post, h ∉ e.tree.walk q := by
    intro q hq hSq h hh hmem
    have hhc := hlater hh
    rw [ha.primaries_eq hl] at hq
    rw [ha.codeBlocks_eq hl] at hhc
    rw [ha.mem_walk_iff hl (hl.mem_frame_of_primary hq)
      (hl.mem_frame_of_code hhc)] at hmem
    exact (hready.before q hSq h hhc hmem).not_mem hl hsplit hh
  have hsame := hsealed.runs ev hsteady hlater hout
  obtain ⟨hau, -, -⟩ := Steady.runs ev hsteady hlater
  refine get?_values_congr (hau.primaries_eq hel) (fun q hq => ?_) fun q hq hi => ?_
  · exact hau.index?_eq hel (hel.mem_frame_of_primary hq)
  · have hqt := ha.primaries_eq hl ▸ hq
    rw [ha.index?_eq hl (hl.mem_frame_of_primary hqt)] at hi
    exact hsame q hq ⟨hqt, n, hn, _, hi, .refl⟩

/-- A block that is ready would put out the same in the end. -/
theorem Steady.fresh (ht : t.Steady) (htold : t.UpToDate) (hev : ev.ReadsRelated)
    (hb : b ∈ t.orderedPythonBlocks) (hready : t.Ready b) :
    ∃ block, (t.evaluate ev).tree.code? b = some block ∧ ∀ calls index,
      block.value = some ((ev calls ⟨block, (t.evaluate ev).tree.values, index⟩).getD "") := by
  have hl := ht.wellLinked
  have hpython := (mem_orderedPythonBlocks hb).1
  have hbf := hl.mem_frame_of_code (t.pythonBlocks_subset hpython)
  have hmem : b ∈ t.schedule := List.mem_append_right _ (List.mem_append_left _ hb)
  obtain ⟨pre, post, hsplit⟩ := List.append_of_mem hmem
  have hsub := t.schedule_subset
  rw [hsplit] at hsub
  obtain ⟨hpre, hlater⟩ := List.append_subset.1 hsub
  rw [ht.evaluate_eq, hsplit, List.foldl_append]
  -- The blocks before it are run
  obtain ⟨ha, hsteady, htended⟩ := Steady.runs ev (e := ⟨t, []⟩) ht hpre
  generalize pre.foldl (Evaluation.run ev) ⟨t, []⟩ = e at *
  have hvalues {n : Nat} (hn : n ∈ t.related b) :=
    hready.get?_values ev ht hsplit ha hsteady (htended htold.tended) hn
  -- Then it is run itself, and keeps what is put out for it
  rw [← ha.codeBlocks_eq hl] at hlater
  obtain ⟨k, hk, hlast⟩ := hsteady.code?_runs ev hlater (hl.schedule_split hsplit).2
  refine ⟨_, hlast, fun calls index => ?_⟩
  have hkind : k.kind = .python := by
    have hispython := (List.mem_filter.1 hpython).2
    rw [← ha.isPython_eq hl hbf] at hispython
    simpa [isPython, hk] using hispython
  have hrelated : k.related = t.related b := by
    rw [← ha.related_eq hl hbf, related, hk]
    rfl
  generalize (b :: post).foldl (Evaluation.run ev) e = last at *
  generalize hanswer : (ev e.calls (e.tree.callOf b k)).getD "" = s
  have hsame : ev calls ⟨{ k with value := some s }, last.tree.values, index⟩ =
      ev e.calls (e.tree.callOf b k) :=
    hev _ _ _ _ hkind hkind rfl fun n hn => hvalues (hrelated ▸ hn)
  rw [hsame, hanswer]

/-! ## What the order of python blocks is good for -/

/-- In an order that is allowed, a block reads what is made before it, by itself or by none. -/
theorem isOrdered_reads {made seen : List TabIndex} {xs ys : List (Handle × TabIndex)}
    {c : Handle × TabIndex} {n : Nat} (ho : t.isOrdered made seen (xs ++ c :: ys))
    (hn : n ∈ t.related c.1) (hown : c.2 ≠ .ofNat n) (hmade : .ofNat n ∈ made) :
    .ofNat n ∈ seen ∨ ∃ x ∈ xs, x.2 = .ofNat n := by
  -- Induction on the blocks before, whose indexes have been seen when this one is met
  induction xs generalizing seen with
  | nil =>
    rw [List.nil_append, isOrdered, Bool.and_eq_true, Bool.not_eq_true', readsForward,
      List.any_eq_false] at ho
    have hreads := ho.1 n hn
    simp only [bne_iff_ne, ne_eq, Bool.and_eq_true, List.contains_eq_mem, decide_eq_true_eq,
      Bool.not_eq_true', decide_eq_false_iff_not, not_and, not_not] at hreads
    exact Or.inl (hreads ⟨fun heq => hown heq.symm, hmade⟩)
  | cons x xs ih =>
    rw [List.cons_append, isOrdered, Bool.and_eq_true] at ho
    rcases ih ho.2 with hseen | ⟨y, hy, hyi⟩
    · rcases List.mem_cons.1 hseen with heq | hseen
      · exact Or.inr ⟨x, List.mem_cons_self .., heq.symm⟩
      · exact Or.inl hseen
    · exact Or.inr ⟨y, List.mem_cons_of_mem _ hy, hyi⟩

theorem mem_boundBlocks_iff {c : Handle × TabIndex} :
    c ∈ t.boundBlocks ↔ c.1 ∈ t.pythonBlocks ∧ t.boundIndex? c.1 = some c.2 := by
  rw [boundBlocks, List.mem_filterMap]
  constructor
  · rintro ⟨x, hx, hxc⟩
    obtain ⟨i, hi, rfl⟩ := Option.map_eq_some_iff.1 hxc
    exact ⟨hx, hi⟩
  · rintro ⟨hmem, hi⟩
    exact ⟨c.1, hmem, by rw [hi]; rfl⟩

end Tree

end TabStop
