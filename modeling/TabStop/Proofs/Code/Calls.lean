import TabStop.Proofs.Code.Evaluation

/-!
# The calls for code blocks

To run code is to call an evaluator. A block of the document is called for exactly once each time it
is run, and with the block as it stands in the document. No run changes another block, and none takes
a block away. So when a list of blocks is run, the calls are told by the document as it was before.
-/

namespace TabStop.Tree

variable {t u : Tree} (ev : Evaluator) {e : Evaluation} {c : Call} {h : Handle} {hs : List Handle}

/-- A call is made for a node: it tells the code block that the node is, and the index of the nearest
tab stop around it. -/
structure Runs (t : Tree) (h : Handle) (c : Call) : Prop where
  block : t.code? h = some c.block
  index : c.index = (t.nearestPlaceholder? h).map (·.index)

/-- A block that nobody has run since is called for in the same way. -/
theorem Runs.of_alike (hc : u.Runs h c) (ha : Alike t u) (hl : t.WellLinked) (hh : h ∈ t.frame)
    (hmarker : (u.slotOf h).marker = (t.slotOf h).marker) : t.Runs h c := by
  constructor
  · rw [(hl.inUse_of_mem_frame hh).code?_eq, ← hmarker, ← (ha.inUse hh).code?_eq]
    exact hc.block
  · rw [← ha.nearestPlaceholder?_eq hl hh]
    exact hc.index

/-- A block of the document is called for once when it is run. -/
theorem WellLinked.calls_run (hl : e.tree.WellLinked) (hh : h ∈ e.tree.codeBlocks) :
    ∃ c, e.tree.Runs h c ∧ (e.run ev h).calls = c :: e.calls := by
  obtain ⟨hmem, hsome⟩ := List.mem_filter.1 hh
  obtain ⟨k, hk⟩ := Option.isSome_iff_exists.1 hsome
  have hattached := hl.isAttached_of_mem (List.mem_of_mem_drop hmem)
  refine ⟨e.tree.callOf h k, ⟨hk, rfl⟩, ?_⟩
  simp only [Evaluation.run, hattached, hk, Bool.not_true, Bool.false_eq_true, ↓reduceIte]
  rfl

/-- Blocks are called for in the order in which they are run, each as it was in a tree of the frame in
which none of them had been run yet. -/
theorem Steady.calls_runs (ht : e.tree.Steady) (ha : Alike t e.tree) (hl : t.WellLinked)
    (hhs : hs ⊆ t.codeBlocks) (hnodup : hs.Nodup)
    (hwaiting : ∀ x ∈ hs, (e.tree.slotOf x).marker = (t.slotOf x).marker) :
    ∃ calls, List.Forall₂ t.Runs hs calls ∧
      (hs.foldl (Evaluation.run ev) e).calls = calls.reverse ++ e.calls := by
  induction hs generalizing e with
  | nil => exact ⟨[], .nil, rfl⟩
  | cons h hs ih =>
    obtain ⟨hh, hhs⟩ := List.cons_subset.1 hhs
    obtain ⟨hnot, hnodup⟩ := List.nodup_cons.1 hnodup
    obtain ⟨hfirst, hwaiting⟩ := List.forall_mem_cons.1 hwaiting
    have hhf := hl.mem_frame_of_code hh
    have hhe : h ∈ e.tree.codeBlocks := ha.codeBlocks_eq hl ▸ hh
    obtain ⟨hrun, hsteady, -⟩ := ht.run ev hhe
    obtain ⟨k, -, hmarker⟩ := ht.marker_run ev hhe
    obtain ⟨c, hc, hcall⟩ := ht.wellLinked.calls_run ev hhe
    -- The blocks behind it are still to be run
    have hstill : ∀ x ∈ hs, ((e.run ev h).tree.slotOf x).marker = (t.slotOf x).marker := by
      intro x hx
      have hne : x ≠ h := fun heq => hnot (heq ▸ hx)
      have hxf : x ∈ e.tree.frame := ha.frame_eq ▸ hl.mem_frame_of_code (hhs hx)
      rw [hmarker x hxf, if_neg hne]
      exact hwaiting x hx
    obtain ⟨calls, hcalls, hrest⟩ := ih hsteady (ha.trans hrun) hhs hnodup hstill
    refine ⟨c :: calls, .cons (hc.of_alike ha hl hhf hfirst) hcalls, ?_⟩
    rw [List.foldl_cons, hrest, hcall, List.reverse_cons, List.append_assoc]
    rfl

/-- When a source has been read, running its code calls for each shell and vim block in the order of
the document, then for the python blocks in their own order, then for the python blocks that make the
text of no tab stop, in the order of the document. No block is called for twice, and all of them are
still in the document in the end. -/
theorem evaluate_calls_ofSnippet (identity : Nat) (d : Dialect) (source : String) (final : Bool)
    (ev : Evaluator) (hcapacity : (ofSource identity d source).capacity < 2 ^ 32) :
    let t := ofSnippet identity d source final
    List.Forall₂ t.Runs
        ((t.codeBlocks.filter fun h => !t.isPython h) ++
          (t.orderedPythonBlocks ++ t.pythonBlocks.filter fun h => (t.boundIndex? h).isNone))
        (t.evaluate ev).calls.reverse ∧
      t.schedule.Nodup ∧ (t.evaluate ev).tree.codeBlocks = t.codeBlocks := by
  intro t
  obtain ⟨ht, -⟩ := steady_ofSnippet identity d source final hcapacity
  have hl := ht.wellLinked
  obtain ⟨ha, -, -⟩ := Steady.runs ev (e := ⟨t, []⟩) ht t.schedule_subset
  -- A run changes what is shown and no block, so the schedule stays what it was at the start
  obtain ⟨calls, hcalls, hrun⟩ := Steady.calls_runs ev (e := ⟨t, []⟩) ht (.refl hl) hl
    t.schedule_subset hl.nodup_schedule fun _ _ => rfl
  rw [← ht.evaluate_eq] at ha hrun
  refine ⟨?_, hl.nodup_schedule, ha.codeBlocks_eq hl⟩
  rw [hrun, List.append_nil, List.reverse_reverse]
  exact hcalls

/-- A tree with a python block in a tab stop, another python block, a shell block and a vim block. -/
def fourBlocks : Tree := ofSnippet 0 .ultiSnips "$\x7b1:`!p`\x7d`!p````!v`" false

/-- The shell block and the vim block come first, and the python block in the tab stop before the other
one. -/
theorem evaluate_calls_fourBlocks :
    let calls := (fourBlocks.evaluate alwaysX).calls.reverse
    List.Forall₂ fourBlocks.Runs [⟨0, 4, 0⟩, ⟨0, 5, 0⟩, ⟨0, 2, 0⟩, ⟨0, 3, 0⟩] calls ∧
      calls.map (fun c => (c.block.kind, c.index)) =
        [(.shell, none), (.vim, none), (.python, some (.ofNat 1)), (.python, none)] := by
  have hcapacity : (ofSource 0 .ultiSnips "$\x7b1:`!p`\x7d`!p````!v`").capacity = 6 := by cbv
  have hlt : (ofSource 0 .ultiSnips "$\x7b1:`!p`\x7d`!p````!v`").capacity < 2 ^ 32 := by
    rw [hcapacity]
    decide
  have hblocks :
      (fourBlocks.codeBlocks.filter fun h => !fourBlocks.isPython h) ++
          (fourBlocks.orderedPythonBlocks ++
            fourBlocks.pythonBlocks.filter fun h => (fourBlocks.boundIndex? h).isNone) =
        [⟨0, 4, 0⟩, ⟨0, 5, 0⟩, ⟨0, 2, 0⟩, ⟨0, 3, 0⟩] := by cbv
  have hcalls := (evaluate_calls_ofSnippet 0 .ultiSnips _ false alwaysX hlt).1
  exact ⟨hblocks ▸ hcalls, by cbv⟩

end TabStop.Tree
