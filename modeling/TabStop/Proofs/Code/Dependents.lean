import TabStop.Proofs.Code.Calls
import TabStop.Proofs.Code.Order
import TabStop.Proofs.Edit.Capacity

/-!
# Which python blocks are run after an edit

When a primary tab stop has been edited, the python blocks that make the text of a tab stop are gone
through once, in their order. A block is run if it reads the index that was edited, or one whose text
a block before it has made in that run. So each block that is run depends on the edited index. But an
index may be made by several blocks, and a block may stand before one of those that make what it
reads: then it is not run again when that one is, unless it reads something else that has changed.
-/

namespace TabStop

theorem TabIndex.eq_ofNat_of_whole? {i : TabIndex} {n : Nat} (h : i.whole? = some n) :
    i = .ofNat n := by
  obtain ⟨v, hv⟩ := i
  rw [TabIndex.whole?] at h
  split at h
  · next hwhole =>
    obtain ⟨hden, -⟩ := hwhole
    have hnum : ((v.num.toNat : Int) : Rat) = v := by
      rw [Int.toNat_of_nonneg (Rat.num_nonneg.2 hv)]
      exact Rat.den_eq_one_iff v |>.1 hden
    simp only [TabIndex.ofNat, TabIndex.mk.injEq]
    rw [← Option.some.inj h]
    exact_mod_cast hnum.symm
  · simp at h

namespace Tree

variable {t : Tree} (ev : Evaluator) {e : Evaluation} {b c p : Handle} {bs xs ys : List Handle}
  {changed : List Nat} {n : Nat}

/-! ## Dependents -/

/-- A block reads the index whose text another block makes. -/
def ReadsFrom (t : Tree) (b c : Handle) : Prop :=
  ∃ n ∈ t.related b, (t.boundIndex? c).bind (·.whole?) = some n

/-- The python blocks that make the text of a tab stop and read an index, or read what is made by such
a block. -/
inductive Depends (t : Tree) (n : Nat) : Handle → Prop
  | reads {b : Handle} : b ∈ t.orderedPythonBlocks → n ∈ t.related b → Depends t n b
  | through {b c : Handle} :
    Depends t n c → b ∈ t.orderedPythonBlocks → t.ReadsFrom b c → Depends t n b

/-- Those blocks of a list that read an index that has changed. When there is one, the index whose text
it makes has changed for the blocks behind it. -/
def dependents (t : Tree) (changed : List Nat) : List Handle → List Handle
  | [] => []
  | b :: bs =>
    if (t.related b).any changed.contains then
      b :: t.dependents (((t.boundIndex? b).bind (·.whole?)).toList ++ changed) bs
    else t.dependents changed bs

theorem dependents_cons_of_reads (hb : ∃ n ∈ t.related b, n ∈ changed) :
    t.dependents changed (b :: bs) =
      b :: t.dependents (((t.boundIndex? b).bind (·.whole?)).toList ++ changed) bs := by
  rw [dependents, if_pos]
  simpa using hb

theorem dependents_cons_of_not (hb : ¬∃ n ∈ t.related b, n ∈ changed) :
    t.dependents changed (b :: bs) = t.dependents changed bs := by
  rw [dependents, if_neg]
  simpa using hb

theorem dependents_sublist (t : Tree) (changed : List Nat) (bs : List Handle) :
    (t.dependents changed bs).Sublist bs := by
  induction bs generalizing changed with
  | nil => exact .slnil
  | cons b bs ih =>
    by_cases hb : ∃ n ∈ t.related b, n ∈ changed
    · rw [dependents_cons_of_reads hb]
      exact (ih _).cons_cons b
    · rw [dependents_cons_of_not hb]
      exact (ih changed).cons b

/-- What a block makes has changed as well when the block has been run. -/
theorem reads_changed_iff :
    (∃ n ∈ t.related b, n ∈ ((t.boundIndex? c).bind (·.whole?)).toList ++ changed) ↔
      (∃ n ∈ t.related b, n ∈ changed) ∨ t.ReadsFrom b c := by
  rw [ReadsFrom, ← exists_or]
  refine exists_congr fun n => ?_
  rw [List.mem_append, Option.mem_toList, or_comm, and_or_left]

/-- A block is run if it reads what has changed, or what a block before it makes that is run. -/
theorem mem_dependents_iff (hnodup : (xs ++ b :: ys).Nodup) :
    b ∈ t.dependents changed (xs ++ b :: ys) ↔
      (∃ n ∈ t.related b, n ∈ changed) ∨
        ∃ c ∈ xs, c ∈ t.dependents changed (xs ++ b :: ys) ∧ t.ReadsFrom b c := by
  induction xs generalizing changed with
  | nil =>
    have hnot : b ∉ t.dependents changed ys := fun hmem =>
      (List.nodup_cons.1 hnodup).1 ((t.dependents_sublist changed ys).subset hmem)
    by_cases hb : ∃ n ∈ t.related b, n ∈ changed
    · simp [dependents_cons_of_reads hb, hb]
    · simp [dependents_cons_of_not hb, hb, hnot]
  | cons x xs ih =>
    rw [List.cons_append] at hnodup ⊢
    obtain ⟨hx, hnodup⟩ := List.nodup_cons.1 hnodup
    have hne : b ≠ x := fun heq => hx (heq ▸ by simp)
    have hnew {c : Handle} (hc : c ∈ xs) : c ≠ x := fun heq => hx (heq ▸ by simp [hc])
    by_cases hread : ∃ n ∈ t.related x, n ∈ changed
    · -- The first block is run, so what it makes has changed for the others
      rw [dependents_cons_of_reads hread, List.mem_cons, or_iff_right hne, ih hnodup,
        reads_changed_iff, or_assoc]
      refine or_congr_right ⟨fun h => ?_, fun ⟨c, hc, hrun, hreads⟩ => ?_⟩
      · rcases h with hreads | ⟨c, hc, hrun, hreads⟩
        · exact ⟨x, by simp, by simp, hreads⟩
        · exact ⟨c, List.mem_cons_of_mem _ hc, List.mem_cons_of_mem _ hrun, hreads⟩
      · rcases List.mem_cons.1 hc with rfl | hc
        · exact Or.inl hreads
        · exact Or.inr ⟨c, hc, (List.mem_cons.1 hrun).resolve_left (hnew hc), hreads⟩
    · have hold : x ∉ t.dependents changed (xs ++ b :: ys) := fun hmem =>
        hx ((t.dependents_sublist changed _).subset hmem)
      rw [dependents_cons_of_not hread, ih hnodup]
      refine or_congr_right ⟨fun ⟨c, hc, h⟩ => ⟨c, List.mem_cons_of_mem _ hc, h⟩,
        fun ⟨c, hc, hrun, hreads⟩ => ⟨c, ?_, hrun, hreads⟩⟩
      exact (List.mem_cons.1 hc).resolve_left fun heq => hold (heq ▸ hrun)

/-- Only blocks that depend on the index are run. -/
theorem depends_of_mem_dependents (hbs : bs ⊆ t.orderedPythonBlocks)
    (hchanged : ∀ m ∈ changed, m = n ∨
      ∃ c, t.Depends n c ∧ (t.boundIndex? c).bind (·.whole?) = some m)
    (hb : b ∈ t.dependents changed bs) : t.Depends n b := by
  -- Induction on the blocks still to be met; what has changed is the tab stop or comes from a block
  -- that depends on it
  induction bs generalizing changed with
  | nil => simp [dependents] at hb
  | cons c bs ih =>
    obtain ⟨hc, hbs⟩ := List.cons_subset.1 hbs
    by_cases hread : ∃ m ∈ t.related c, m ∈ changed
    · have hdepends : t.Depends n c := by
        obtain ⟨m, hm, hmem⟩ := hread
        rcases hchanged m hmem with rfl | ⟨d, hd, hmade⟩
        · exact .reads hc hm
        · exact .through hd hc ⟨m, hm, hmade⟩
      rw [dependents_cons_of_reads hread] at hb
      rcases List.mem_cons.1 hb with rfl | hb
      · exact hdepends
      · refine ih hbs (fun m hm => ?_) hb
        rcases List.mem_append.1 hm with hm | hm
        · exact Or.inr ⟨c, hdepends, Option.mem_toList.1 hm⟩
        · exact hchanged m hm
    · rw [dependents_cons_of_not hread] at hb
      exact ih hbs hchanged hb

/-- All blocks that depend on an index are run if none is left out that reads what a later one makes
that is run. -/
theorem mem_dependents_of_depends (hnodup : t.orderedPythonBlocks.Nodup)
    (hlate : ∀ xs b ys, t.orderedPythonBlocks = xs ++ b :: ys → ∀ c ∈ ys,
      c ∈ t.dependents [n] t.orderedPythonBlocks → t.ReadsFrom b c →
        b ∈ t.dependents [n] t.orderedPythonBlocks)
    (hb : t.Depends n b) : b ∈ t.dependents [n] t.orderedPythonBlocks := by
  induction hb with
  | @reads b hb hread =>
    obtain ⟨xs, ys, hsplit⟩ := List.append_of_mem hb
    rw [hsplit] at hnodup ⊢
    exact (mem_dependents_iff hnodup).2 (Or.inl ⟨n, hread, List.mem_singleton_self n⟩)
  | @through b c hc hb hread ih =>
    obtain ⟨xs, ys, hsplit⟩ := List.append_of_mem hb
    have hcmem := (t.dependents_sublist [n] _).subset ih
    rw [hsplit, List.mem_append, List.mem_cons] at hcmem
    -- The block that is read from stands before this one, is this one, or stands behind it
    rcases hcmem with hcx | rfl | hcy
    · rw [hsplit] at hnodup ih ⊢
      exact (mem_dependents_iff hnodup).2 (Or.inr ⟨c, hcx, ih, hread⟩)
    · exact ih
    · exact hlate xs b ys hsplit c hcy ih hread

/-- If each index is made by one block at most, then the blocks that are run are all that depend on the
index. -/
theorem mem_dependents_iff_of_single
    (hsingle : ∀ x ∈ t.boundPythonBlocks, ∀ y ∈ t.boundPythonBlocks,
      t.boundIndex? x = t.boundIndex? y → x = y)
    (hnodup : t.boundPythonBlocks.Nodup) :
    b ∈ t.dependents [n] t.orderedPythonBlocks ↔ t.Depends n b := by
  have hsub : t.orderedPythonBlocks.Sublist t.boundPythonBlocks := by
    rw [orderedPythonBlocks_eq]
    split
    · exact .refl _
    · exact List.nil_sublist _
  refine ⟨depends_of_mem_dependents (List.Subset.refl _) (by simp),
    mem_dependents_of_depends (hnodup.sublist hsub) fun xs b ys hsplit c hc _ hread => ?_⟩
  -- No block reads what a later one makes
  obtain ⟨m, hm, hmade⟩ := hread
  obtain ⟨i, hi, hwhole⟩ := Option.bind_eq_some_iff.1 hmade
  rw [TabIndex.eq_ofNat_of_whole? hwhole] at hi
  have hne : t.boundIndex? b ≠ some (.ofNat m) := by
    intro heq
    have hmem : ∀ x ∈ b :: ys, x ∈ t.boundPythonBlocks := fun x hx =>
      hsub.subset (hsplit ▸ List.mem_append_right xs hx)
    obtain rfl := hsingle b (hmem b (by simp)) c (hmem c (by simp [hc])) (heq.trans hi.symm)
    have hrest := hnodup.sublist hsub
    rw [hsplit, List.nodup_append', List.nodup_cons] at hrest
    exact hrest.2.1.1 hc
  exact absurd ⟨hm, hne, c, hc, hi⟩ (not_readsAhead_of_single hsingle hnodup hsplit)

/-! ## An update -/

/-- Whether a block is run is told by the document as it was before the first run. -/
theorem Steady.foldl_runDependent (ht : e.tree.Steady) (ha : Alike t e.tree) (hl : t.WellLinked)
    (hbs : bs ⊆ t.codeBlocks) (changed : List Nat) :
    (bs.foldl (Evaluation.runDependent ev) (e, changed)).1 =
      (t.dependents changed bs).foldl (Evaluation.run ev) e := by
  -- Runs leave what blocks read and make as it was, so which of them run is told from the first
  -- tree
  induction bs generalizing e changed with
  | nil => rfl
  | cons b bs ih =>
    obtain ⟨hb, hbs⟩ := List.cons_subset.1 hbs
    have hbf := hl.mem_frame_of_code hb
    obtain ⟨hrun, hsteady, -⟩ := ht.run ev (ha.codeBlocks_eq hl ▸ hb)
    have hnext := ha.trans hrun
    rw [List.foldl_cons, Evaluation.runDependent]
    simp only [ha.related_eq hl hbf, hnext.boundIndex?_eq hl hbf]
    by_cases hread : ∃ n ∈ t.related b, n ∈ changed
    · rw [dependents_cons_of_reads hread, List.foldl_cons, if_pos (by simpa using hread)]
      exact ih hsteady hnext hbs _
    · rw [dependents_cons_of_not hread, if_neg (by simpa using hread)]
      exact ih ht ha hbs changed

theorem WellLinked.nodup_orderedPythonBlocks (hl : t.WellLinked) : t.orderedPythonBlocks.Nodup :=
  (List.nodup_append'.1 (List.nodup_append'.1 hl.nodup_schedule).2.1).1

/-- The blocks that are run when a primary tab stop has been edited. -/
def rerun (t : Tree) (p : Handle) : List Handle :=
  match (t.index? p).bind (·.whole?) with
  | some n => t.dependents [n] t.orderedPythonBlocks
  | none => []

theorem rerun_sublist (t : Tree) (p : Handle) : (t.rerun p).Sublist t.orderedPythonBlocks := by
  unfold rerun
  split
  · exact t.dependents_sublist _ _
  · exact List.nil_sublist _

theorem rerun_subset (t : Tree) (p : Handle) : t.rerun p ⊆ t.codeBlocks :=
  List.Subset.trans (t.rerun_sublist p).subset t.orderedPythonBlocks_subset

/-- After an edit all tab stops are brought up to date, then blocks are run. -/
theorem Steady.updateWith_perform (ht : t.Steady) (hp : p ∈ t.primaries) :
    let e := (t.rerun p).foldl (Evaluation.run ev) ⟨t.repeatAll, []⟩
    (updateWith ev p).perform t = (.ok e.calls.reverse, e.tree.repeatAll) := by
  have hl := ht.wellLinked
  obtain ⟨hr, hsteady, -⟩ := ht.repeatAll
  have hindex := hr.index?_eq hl (hl.mem_frame_of_primary hp)
  rw [rerun]
  cases hn : (t.index? p).bind (·.whole?) with
  | none => simp [updateWith, update, checkPrimary_perform hl hp, hindex, hn]
  | some n =>
    have hfold := Steady.foldl_runDependent ev (e := ⟨t.repeatAll, []⟩) hsteady hr.toAlike hl
      t.orderedPythonBlocks_subset [n]
    simp [updateWith, update, checkPrimary_perform hl hp, hindex, hn, hr.orderedPythonBlocks_eq hl,
      hfold]

/-- An update is not refused, and calls for the blocks that have to be run. -/
theorem Steady.updateWith (ht : t.Steady) (hp : p ∈ t.primaries) :
    ∃ calls u, (Tree.updateWith ev p).perform t = (.ok calls, u) ∧
      List.Forall₂ t.Runs (t.rerun p) calls := by
  have hl := ht.wellLinked
  obtain ⟨hr, hsteady, -⟩ := ht.repeatAll
  have hsub := t.rerun_subset p
  have hnodup := hl.nodup_orderedPythonBlocks.sublist (t.rerun_sublist p)
  obtain ⟨calls, hcalls, hrun⟩ := Steady.calls_runs ev (e := ⟨t.repeatAll, []⟩) hsteady
    hr.toAlike hl hsub hnodup fun x hx => hr.marker_eq (hl.mem_frame_of_code (hsub hx))
  have hperform := ht.updateWith_perform ev hp
  simp only [hrun, List.append_nil, List.reverse_reverse] at hperform
  exact ⟨calls, _, hperform, hcalls⟩

end Tree

end TabStop
