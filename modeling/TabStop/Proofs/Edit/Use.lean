import TabStop.Proofs.Resolve.Questions
import TabStop.Proofs.Code.Dependents

/-!
# A snippet in use

When a snippet has been read, it is used: its variables are resolved, texts are written into its tab
stops, its code is run, and the tab stops that repeat others are brought up to date. Whatever is done,
and however often, tab stops can be kept up to date and text has nothing below it. So what a single
step does to a tree of this kind is known at each point of the use.
-/

namespace TabStop.Tree

variable {t u : Tree} (ev : Evaluator) {e : Evaluation} {h p : Handle} {hs : List Handle} {n : Nat}
  {r : Resolver} {s : String} {names : List String}

/-! ## What all steps keep -/

/-- Tab stops can be kept up to date, and text has nothing below it. -/
structure Usable (t : Tree) : Prop extends Steady t where
  leaves : t.TextLeaves

namespace Usable

theorem ofSnippet (identity : Nat) (d : Dialect) (source : String) (final : Bool)
    (hcapacity : (ofSource identity d source).capacity < 2 ^ 32) :
    (Tree.ofSnippet identity d source final).Usable :=
  ⟨(steady_ofSnippet identity d source final hcapacity).1,
    (unresolved_ofSnippet identity d source final hcapacity.le).leaves⟩

theorem repeatAll (ht : t.Usable) : t.repeatAll.Usable :=
  ⟨ht.toSteady.repeatAll.2.1, ht.leaves.repeatAll ht.toRepeatable⟩

/-- A text takes the place of all that was in a primary tab stop. -/
theorem overwriteText (ht : t.Usable) (hp : p ∈ t.primaries) (s : String) :
    (t.overwriteText p s).2.Usable := by
  have hl := ht.wellLinked
  have hpmem := (List.mem_filter.1 hp).1
  have hpu := hl.inUse_of_mem_placeholders hpmem
  obtain ⟨u, heq, hover⟩ := overwriteText_overwritten hl hpu s
  rw [heq]
  constructor
  · exact ht.toSteady.shown hover.toShown (hover.wrote hl hpu).remains hp fun x hx hxu =>
      hover.left hx hxu
  · exact ht.leaves.shown hl hpmem hover.toShown

theorem output (ht : t.Usable) (hh : t.InUse h) {k : CodeBlock} (hk : t.code? h = some k) :
    (t.output h k s).Usable := by
  have hlinks := sameLinks_output t h k s
  refine ⟨ht.toSteady.output hh hk, fun x hx htext => ?_⟩
  rw [hlinks.walk_eq, hlinks.root_eq] at hx
  rw [marker_output hh (ht.wellLinked.mem_walk_root_inUse hx)] at htext
  rw [hlinks.children]
  apply ht.leaves x hx
  -- The block itself is no text
  split at htext
  · simp [Marker.text?] at htext
  · exact htext

theorem run (ht : e.tree.Usable) (hh : h ∈ e.tree.codeBlocks) : (e.run ev h).tree.Usable := by
  have hl := ht.wellLinked
  obtain ⟨k, hk, hrun⟩ := run_eq ev hl hh
  have hout := ht.output (s := (ev e.calls (e.tree.callOf h k)).getD "")
    (hl.inUse_of_mem_frame (hl.mem_frame_of_code hh)) hk
  rw [hrun]
  dsimp only
  split
  · exact hout.repeatAll
  · exact hout

theorem runs (ht : e.tree.Usable) (hhs : hs ⊆ e.tree.codeBlocks) :
    (hs.foldl (Evaluation.run ev) e).tree.Usable := by
  induction hs generalizing e with
  | nil => exact ht
  | cons h hs ih =>
    obtain ⟨hh, hhs⟩ := List.cons_subset.1 hhs
    have ha := (ht.toSteady.run ev hh).1
    exact ih (ht.run ev hh) (ha.codeBlocks_eq ht.wellLinked ▸ hhs)

theorem evaluate (ht : t.Usable) : (t.evaluate ev).tree.Usable := by
  rw [ht.toSteady.evaluate_eq]
  exact ht.runs ev (e := ⟨t, []⟩) t.schedule_subset

theorem update (ht : t.Usable) (hp : p ∈ t.primaries) : ((Tree.update p).after t).Usable := by
  have hperform : (Tree.update p).perform t = (.ok (), t.repeatAll) := by
    simp [Tree.update, checkPrimary_perform ht.wellLinked hp]
  rw [after_of_perform hperform]
  exact ht.repeatAll

theorem updateWith (ht : t.Usable) (hp : p ∈ t.primaries) :
    ((Tree.updateWith ev p).after t).Usable := by
  have hl := ht.wellLinked
  have hr := ht.toSteady.repeatAll.1
  -- The first pass keeps the frame, so these are still blocks of the document
  have hsub : t.rerun p ⊆ t.repeatAll.codeBlocks := hr.codeBlocks_eq hl ▸ t.rerun_subset p
  rw [after_of_perform (ht.toSteady.updateWith_perform ev hp)]
  exact (ht.repeatAll.runs ev (e := ⟨t.repeatAll, []⟩) hsub).repeatAll

/-- After its variables have been resolved, a snippet can be used as before. A tree never has more
slots than the numbers of 32 bits can tell apart. -/
theorem resolveVariables? (ht : t.Usable) (hcapacity : t.capacity ≤ 2 ^ 32)
    (hresolve : t.resolveVariables? r = some (names, u)) : u.Usable := by
  obtain ⟨st, asked, ha, -, rfl⟩ := ht.wellLinked.resolveVariables?_asks ht.leaves hresolve
  obtain ⟨gone, hreduced, -⟩ := ha.reduced
  obtain ⟨hsteady, -, hleaves⟩ :=
    hreduced.leaves.settle hreduced.wellLinked (hreduced.capacity.trans_le hcapacity)
  exact ⟨hsteady, hleaves⟩

end Usable

/-! ## Use -/

/-- The trees that the use of a snippet leads to: its variables are resolved, a text is put into a
primary tab stop, the others are brought up to date, with an evaluator or without one, or all code is
run. -/
inductive Used (t : Tree) : Tree → Prop
  | start : Used t t
  | resolve {u v : Tree} {r : Resolver} {names : List String} :
    Used t u → u.capacity ≤ 2 ^ 32 → u.resolveVariables? r = some (names, v) → Used t v
  | write {u : Tree} {p : Handle} (s : String) :
    Used t u → p ∈ u.primaries → Used t (u.overwriteText p s).2
  | update {u : Tree} {p : Handle} :
    Used t u → p ∈ u.primaries → Used t ((update p).after u)
  | evaluate {u : Tree} (ev : Evaluator) : Used t u → Used t (u.evaluate ev).tree
  | updateWith {u : Tree} {p : Handle} (ev : Evaluator) :
    Used t u → p ∈ u.primaries → Used t ((updateWith ev p).after u)

theorem Used.usable (hu : Used t u) (ht : t.Usable) : u.Usable := by
  induction hu with
  | start => exact ht
  | resolve _ hcapacity hresolve ih => exact ih.resolveVariables? hcapacity hresolve
  | write s _ hp ih => exact ih.overwriteText hp s
  | update _ hp ih => exact ih.update hp
  | evaluate ev _ ih => exact ih.evaluate ev
  | updateWith ev _ hp ih => exact ih.updateWith ev hp

/-! ## Variables -/

/-- In a snippet in use, resolving asks for the names of variables in their order, for each one once at
most. A variable is not asked for exactly if it is inside of one that has got an answer before. In the
end each variable has a value, or it is hidden in one that has. A tree never has more slots than the
numbers of 32 bits can tell apart, and the indexes of new tab stops must not run out. -/
theorem resolveVariables?_asks_ofSnippet (identity : Nat) (d : Dialect) (source : String)
    (final : Bool) (hsource : (ofSource identity d source).capacity < 2 ^ 32)
    (ht : Used (ofSnippet identity d source final) t) (hcapacity : t.capacity ≤ 2 ^ 32) (r : Resolver)
    (hindexes : t.highestIndex + (t.promotedNames r).length < TabIndex.maxWhole) :
    ∃ hs names u, t.resolveVariables? r = some (names, u) ∧ names = hs.map t.nameOf ∧
      hs.Sublist t.variableNodes ∧ hs.Nodup ∧
      (∀ x ∈ t.variableNodes, x ∉ hs ↔ ∃ y ∈ t.ancestors x, t.Answered r hs y) ∧
      ∀ x ∈ u.variableNodes, u.HasValue x ∨ u.isHidden x := by
  have husable := ht.usable (.ofSnippet identity d source final hsource)
  have hl := husable.wellLinked
  obtain ⟨⟨names, u⟩, hresolve⟩ :=
    Option.isSome_iff_exists.1 ((hl.resolveVariables?_isSome_iff r).2 hindexes)
  obtain ⟨st, hs, ha, hnames, rfl⟩ := hl.resolveVariables?_asks husable.leaves hresolve
  obtain ⟨gone, hreduced, -⟩ := ha.reduced
  refine ⟨hs, names, _, hresolve, hnames, ha.sublist, hl.nodup_variableNodes.sublist ha.sublist,
    fun x hx => ha.skipped hx, ?_⟩
  -- Each variable that is left has a value or is hidden, and settling keeps it so
  apply hreduced.wellLinked.settle_valued hreduced.leaves (hreduced.capacity.trans_le hcapacity)
  intro x hx
  exact ha.hasValue_or_isHidden hl hx

/-- A resolver that has an answer to the first question only. -/
def answersFirst : Resolver := fun asked _ => if asked.isEmpty then some "x" else none

/-- A variable in the default of another one, which has been resolved. -/
def resolvedOnce : Tree :=
  let t := ofSnippet 0 .textMate "$\x7bX:$Y\x7d" false
  ((t.resolveVariables? answersFirst).map Prod.snd).getD t

/-- The outer variable is asked for again and the inner one is not, for the outer one has got an answer
again. -/
theorem resolveVariables?_asks_resolvedOnce :
    Used (ofSnippet 0 .textMate "$\x7bX:$Y\x7d" false) resolvedOnce ∧
      resolvedOnce.variableNodes.map resolvedOnce.nameOf = ["X", "Y"] ∧
      ∃ u, resolvedOnce.resolveVariables? answersFirst = some (["X"], u) ∧
        ∀ x ∈ u.variableNodes, u.HasValue x ∨ u.isHidden x := by
  have hcapacity : ((ofSource 0 .textMate "$\x7bX:$Y\x7d").capacity,
      (ofSnippet 0 .textMate "$\x7bX:$Y\x7d" false).capacity) = (3, 3) := by cbv
  have hfirst : ((ofSnippet 0 .textMate "$\x7bX:$Y\x7d" false).resolveVariables? answersFirst).map
      Prod.fst = some ["X"] := by cbv
  have htree : (resolvedOnce.capacity, resolvedOnce.highestIndex,
      resolvedOnce.promotedNames answersFirst, resolvedOnce.variableNodes.map resolvedOnce.nameOf) =
    (3, 0, [], ["X", "Y"]) := by cbv
  have hagain : (resolvedOnce.resolveVariables? answersFirst).map Prod.fst = some ["X"] := by cbv
  simp only [Prod.mk.injEq] at hcapacity htree
  obtain ⟨hsource, hsnippet⟩ := hcapacity
  obtain ⟨hslots, hhighest, hnames, hvariables⟩ := htree
  obtain ⟨⟨first, t⟩, hresolve, -⟩ := Option.map_eq_some_iff.1 hfirst
  have honce : resolvedOnce = t := by simp [resolvedOnce, hresolve]
  have hused : Used (ofSnippet 0 .textMate "$\x7bX:$Y\x7d" false) resolvedOnce :=
    .resolve .start (by rw [hsnippet]; decide) (honce ▸ hresolve)
  obtain ⟨hs, names, u, hresolved, -, -, -, -, hvalues⟩ :=
    resolveVariables?_asks_ofSnippet 0 .textMate "$\x7bX:$Y\x7d" false (by rw [hsource]; decide)
      hused (by rw [hslots]; decide) answersFirst (by rw [hhighest, hnames]; decide)
  obtain rfl : names = ["X"] := by simpa [hresolved] using hagain
  exact ⟨hused, hvariables, u, hresolved, hvalues⟩

/-! ## Python blocks -/

end TabStop.Tree
