import TabStop.Proofs.Repeat.FinalStop
import TabStop.Tree.Evaluate

/-!
# Running code

A block that is run gets an output, and if it makes the text of a tab stop, all tab stops are brought
up to date. The frame of the document is kept by all that. So the blocks are run in an order that is
known before the first of them is run, and in the end a primary tab stop is repeated as it is, unless
there is a block in it that makes the text of no tab stop.
-/

namespace TabStop.Tree

variable {t u : Tree} (ev : Evaluator) {e : Evaluation} {b h m p q x : Handle} {hs : List Handle}
  {i : TabIndex} {k : CodeBlock} {s : String}

/-! ## Outputs -/

theorem marker_of_code? (hk : t.code? h = some k) : (t.slotOf h).marker = .code k := by
  unfold code? marker? at hk
  split at hk
  · cases hm : (t.slotOf h).marker <;> simp [hm, Marker.code?] at hk
    rw [hk]
  · simp at hk

theorem WellLinked.mem_frame_of_code (hl : t.WellLinked) (hh : h ∈ t.codeBlocks) : h ∈ t.frame := by
  rw [hl.codeBlocks_eq] at hh
  exact (List.mem_filter.1 hh).1

/-- The tree in which a block has a new output. -/
def output (t : Tree) (h : Handle) (k : CodeBlock) (s : String) : Tree :=
  t.setMarker h (.code { k with value := some s })

theorem sameLinks_output (t : Tree) (h : Handle) (k : CodeBlock) (s : String) :
    SameLinks t (t.output h k s) := sameLinks_setMarker t h _

theorem marker_output (hh : t.InUse h) (hx : t.InUse x) : ((t.output h k s).slotOf x).marker =
    if x = h then .code { k with value := some s } else (t.slotOf x).marker :=
  marker_setMarker hh hx _

/-- Text is none of the blocks, so it stays. -/
theorem marker_output_of_text (hh : t.InUse h) (hk : t.code? h = some k) (hx : t.InUse x)
    (htext : (t.slotOf x).marker.text?.isSome) :
    ((t.output h k s).slotOf x).marker = (t.slotOf x).marker := by
  rw [marker_output hh hx, if_neg]
  rintro rfl
  simp [marker_of_code? hk, Marker.text?] at htext

theorem alike_output (hl : t.WellLinked) (hh : t.InUse h) (hk : t.code? h = some k) :
    Alike t (t.output h k s) := by
  have hlinks := sameLinks_output t h k s
  have hmarker := marker_of_code? hk
  refine ⟨hlinks.wellLinked hl, hlinks.identity, ?_, fun hx => ?_, fun {x y} hx hy => ?_⟩
  · rw [frame, frame, descendants, descendants, hlinks.walk_eq, hlinks.root_eq]
    -- A block gets a value and stays a block
    apply List.filter_congr
    intro x hx
    rw [marker_output hh (hl.mem_walk_root_inUse (List.mem_of_mem_drop hx))]
    split
    · next hxh =>
      rw [hxh, hmarker]
      rfl
    · rfl
  · exact hlinks.ancestors_eq hl (hl.inUse_of_mem_frame hx)
  · have hyu := Linked.above_inUse hl (hl.inUse_of_mem_frame hx) (isAncestorOrSelf_iff.2 hy)
    rw [marker_output hh hyu]
    split
    · next hyh =>
      rw [hyh, hmarker]
      rfl
    · rfl

theorem render_output (hl : t.WellLinked) (hh : t.InUse h) (hq : t.InUse q) (hnot : h ∉ t.walk q) :
    (t.output h k s).render q = t.render q := by
  have hlinks := sameLinks_output t h k s
  apply hl.render_congr (hlinks.wellLinked hl) hq
  intro x hx
  have hxu := ((hl.mem_walk_iff hq).1 hx).1
  have hne : x ≠ h := fun heq => hnot (heq ▸ hx)
  exact ⟨hlinks.inUse_iff.2 hxu, by rw [marker_output hh hxu, if_neg hne], hlinks.children x⟩

theorem Calm.output (hc : t.Calm) (hl : t.WellLinked) (hh : t.InUse h) (hk : t.code? h = some k) :
    (t.output h k s).Calm := by
  have ha := alike_output (s := s) hl hh hk
  have hlinks := sameLinks_output t h k s
  intro p hp m hf c hcm
  rw [ha.leaders_eq hl] at hp
  rw [ha.follows_iff hl (mem_leaders_iff.1 hp).1] at hf
  rw [hlinks.children] at hcm ⊢
  obtain ⟨htext, hnil⟩ := hc p hp m hf c hcm
  have hcu := (Linked.child hl (hl.inUse_of_mem_placeholders hf.mem) hcm).1
  rw [marker_output_of_text hh hk hcu htext]
  exact ⟨htext, hnil⟩

/-- A primary tab stop without the block in it stays settled. -/
theorem Settled.output (hs : t.Settled p) (hl : t.WellLinked) (hh : t.InUse h)
    (hk : t.code? h = some k) (hp : p ∈ t.placeholders) (hnot : h ∉ t.walk p) :
    (t.output h k s).Settled p := by
  have ha := alike_output (s := s) hl hh hk
  have hlinks := sameLinks_output t h k s
  intro m hf
  rw [ha.follows_iff hl hp] at hf
  have hmf := hl.mem_frame_of_placeholder hf.mem
  have hmu := hl.inUse_of_mem_frame hmf
  have htext (r : String) : (t.output h k s).repeatedText p m r = t.repeatedText p m r := by
    rw [repeatedText, repeatedText, ha.above_eq hmf, ha.placeholder?_eq hl hmf]
  rw [htext, render_output hl hh (hl.inUse_of_mem_placeholders hp) hnot]
  rcases hs m hf with ⟨hempty, hnil⟩ | ⟨hne, c, hone, hmarker⟩
  · exact Or.inl ⟨hempty, (hlinks.children m).trans hnil⟩
  · refine Or.inr ⟨hne, c, (hlinks.children m).trans hone, ?_⟩
    have hcu := (Linked.child hl hmu (c := c) (by simp [hone])).1
    rw [marker_output_of_text hh hk hcu (by rw [hmarker]; rfl), hmarker]

/-! ## Runs -/

/-- What a block is run with. -/
def callOf (t : Tree) (h : Handle) (k : CodeBlock) : Call :=
  ⟨k, t.values, (t.nearestPlaceholder? h).map (·.index)⟩

/-- A block of the document is run: it gets an output, and if it makes the text of a tab stop, all tab
stops are brought up to date. -/
theorem run_eq (hl : e.tree.WellLinked) (hh : h ∈ e.tree.codeBlocks) :
    ∃ k, e.tree.code? h = some k ∧ (e.run ev h).tree =
      let u := e.tree.output h k ((ev e.calls (e.tree.callOf h k)).getD "")
      if (e.tree.boundIndex? h).isSome then u.repeatAll else u := by
  obtain ⟨hmem, hsome⟩ := List.mem_filter.1 hh
  obtain ⟨k, hk⟩ := Option.isSome_iff_exists.1 hsome
  have hattached := hl.isAttached_of_mem (List.mem_of_mem_drop hmem)
  have hhf := hl.mem_frame_of_code hh
  have ha := alike_output (s := (ev e.calls (e.tree.callOf h k)).getD "") hl
    (hl.inUse_of_mem_frame hhf) hk
  refine ⟨k, hk, ?_⟩
  rw [← ha.boundIndex?_eq hl hhf]
  simp only [Evaluation.run, hattached, hk, Bool.not_true, Bool.false_eq_true, ↓reduceIte]
  rfl

/-- The tab stops that repeat a primary one are up to date, if its index is grounded and all blocks in
it make the text of tab stops. -/
def Tended (t : Tree) : Prop :=
  ∀ p ∈ t.leaders, ∀ i, t.index? p = some i → t.Grounded i →
    (∀ x ∈ t.codeBlocks, x ∈ t.walk p → (t.boundIndex? x).isSome) → t.Settled p

theorem UpToDate.tended (ht : t.UpToDate) : t.Tended := fun p hp i hi hg _ => ht p hp i hi hg

theorem Tended.output (ht : t.Tended) (hl : t.WellLinked) (hh : h ∈ t.codeBlocks)
    (hk : t.code? h = some k) (hbound : (t.boundIndex? h).isSome = false) :
    (t.output h k s).Tended := by
  have hhu := hl.inUse_of_mem_frame (hl.mem_frame_of_code hh)
  have ha := alike_output (s := s) hl hhu hk
  intro p hp i hi hg hblocks
  rw [ha.leaders_eq hl] at hp
  have hpmem := (mem_leaders_iff.1 hp).1
  have hpf := hl.mem_frame_of_placeholder hpmem
  rw [ha.index?_eq hl hpf] at hi
  have hold : ∀ x ∈ t.codeBlocks, x ∈ t.walk p → (t.boundIndex? x).isSome := by
    intro x hx hxp
    have hxf := hl.mem_frame_of_code hx
    rw [← ha.boundIndex?_eq hl hxf]
    exact hblocks x (ha.codeBlocks_eq hl ▸ hx) ((ha.mem_walk_iff hl hpf hxf).2 hxp)
  -- So the block is not in the tab stop
  have hnot : h ∉ t.walk p := fun hmem => by simp [hold h hh hmem] at hbound
  exact (ht p hp i hi ((ha.symm hl).grounded ha.wellLinked hg) hold).output hl hhu hk hpmem hnot

theorem Steady.output (ht : t.Steady) (hh : t.InUse h) (hk : t.code? h = some k) :
    (t.output h k s).Steady :=
  ⟨(alike_output ht.wellLinked hh hk).repeatable ht.toRepeatable,
    ht.calm.output ht.wellLinked hh hk⟩

/-- A run keeps the frame, and what is up to date. -/
theorem Steady.run (ht : e.tree.Steady) (hh : h ∈ e.tree.codeBlocks) :
    Alike e.tree (e.run ev h).tree ∧ (e.run ev h).tree.Steady ∧
      (e.tree.Tended → (e.run ev h).tree.Tended) := by
  have hl := ht.wellLinked
  have hhu := hl.inUse_of_mem_frame (hl.mem_frame_of_code hh)
  obtain ⟨k, hk, hrun⟩ := run_eq ev hl hh
  rw [hrun]
  have ha := alike_output (s := (ev e.calls (e.tree.callOf h k)).getD "") hl hhu hk
  have hs := ht.output (s := (ev e.calls (e.tree.callOf h k)).getD "") hhu hk
  simp only
  cases hbound : (e.tree.boundIndex? h).isSome with
  | true =>
    obtain ⟨hr, hsteady, htold⟩ := hs.repeatAll
    exact ⟨ha.trans hr.toAlike, hsteady, fun _ => htold.tended⟩
  | false => exact ⟨ha, hs, fun htended => htended.output hl hh hk hbound⟩

/-- The block that is run gets what is put out for it, and no other node of the frame changes. -/
theorem Steady.marker_run (ht : e.tree.Steady) (hh : h ∈ e.tree.codeBlocks) :
    ∃ k, e.tree.code? h = some k ∧ ∀ x ∈ e.tree.frame, ((e.run ev h).tree.slotOf x).marker =
      if x = h then .code { k with value := some ((ev e.calls (e.tree.callOf h k)).getD "") }
      else (e.tree.slotOf x).marker := by
  have hl := ht.wellLinked
  have hhu := hl.inUse_of_mem_frame (hl.mem_frame_of_code hh)
  obtain ⟨k, hk, hrun⟩ := run_eq ev hl hh
  refine ⟨k, hk, fun x hx => ?_⟩
  rw [hrun, ← marker_output hhu (hl.inUse_of_mem_frame hx)]
  simp only
  split
  · have ha := alike_output (s := (ev e.calls (e.tree.callOf h k)).getD "") hl hhu hk
    exact (ht.output hhu hk).repeatAll.1.marker_eq (ha.frame_eq ▸ hx)
  · rfl

theorem Steady.runs (ht : e.tree.Steady) (hhs : hs ⊆ e.tree.codeBlocks) :
    Alike e.tree (hs.foldl (Evaluation.run ev) e).tree ∧
      (hs.foldl (Evaluation.run ev) e).tree.Steady ∧
        (e.tree.Tended → (hs.foldl (Evaluation.run ev) e).tree.Tended) := by
  induction hs generalizing e with
  | nil => exact ⟨.refl ht.wellLinked, ht, id⟩
  | cons h hs ih =>
    obtain ⟨hh, hhs⟩ := List.cons_subset.1 hhs
    obtain ⟨ha, hsteady, htended⟩ := ht.run ev hh
    obtain ⟨harest, hlast, hrest⟩ := ih hsteady (ha.codeBlocks_eq ht.wellLinked ▸ hhs)
    exact ⟨ha.trans harest, hlast, fun h => hrest (htended h)⟩

/-- Blocks that are not run keep what has been put out for them. -/
theorem Steady.marker_runs (ht : e.tree.Steady) (hhs : hs ⊆ e.tree.codeBlocks)
    (hx : x ∈ e.tree.frame) (hnot : x ∉ hs) :
    ((hs.foldl (Evaluation.run ev) e).tree.slotOf x).marker = (e.tree.slotOf x).marker := by
  induction hs generalizing e with
  | nil => rfl
  | cons h hs ih =>
    obtain ⟨hh, hhs⟩ := List.cons_subset.1 hhs
    obtain ⟨ha, hsteady, -⟩ := ht.run ev hh
    obtain ⟨k, -, hmarker⟩ := ht.marker_run ev hh
    rw [List.foldl_cons, ih hsteady (ha.codeBlocks_eq ht.wellLinked ▸ hhs) (ha.frame_eq ▸ hx)
      (List.not_mem_of_not_mem_cons hnot), hmarker x hx, if_neg (List.ne_of_not_mem_cons hnot)]

/-- What has been put out for a block stays while others are run. -/
theorem Steady.code?_runs (ht : e.tree.Steady) (hhs : h :: hs ⊆ e.tree.codeBlocks) (hnot : h ∉ hs) :
    ∃ k, e.tree.code? h = some k ∧ ((h :: hs).foldl (Evaluation.run ev) e).tree.code? h =
      some { k with value := some ((ev e.calls (e.tree.callOf h k)).getD "") } := by
  have hl := ht.wellLinked
  obtain ⟨hh, hhs⟩ := List.cons_subset.1 hhs
  have hhf := hl.mem_frame_of_code hh
  obtain ⟨hrun, hran, -⟩ := ht.run ev hh
  obtain ⟨k, hk, hmarker⟩ := ht.marker_run ev hh
  rw [← hrun.frame_eq] at hhf
  rw [← hrun.codeBlocks_eq hl] at hhs
  have hlast := hran.marker_runs ev hhs hhf hnot
  rw [hmarker h (hrun.frame_eq ▸ hhf), if_pos rfl] at hlast
  have hhu := (Steady.runs ev hran hhs).1.inUse hhf
  refine ⟨k, hk, ?_⟩
  rw [List.foldl_cons, hhu.code?_eq, hlast]
  rfl

/-! ## All runs -/

/-- The blocks in the order in which they are run: shell and vim blocks, then the python blocks that
make the text of a tab stop, then the other python blocks. -/
def schedule (t : Tree) : List Handle :=
  (t.codeBlocks.filter fun h => !t.isPython h) ++
    (t.orderedPythonBlocks ++ t.pythonBlocks.filter fun h => (t.boundIndex? h).isNone)

theorem orderedPythonBlocks_sublist (t : Tree) : t.orderedPythonBlocks.Sublist
    (t.pythonBlocks.filter fun h => (t.boundIndex? h).isSome) := by
  have hbound : t.boundBlocks.map (·.1) =
      t.pythonBlocks.filter fun h => (t.boundIndex? h).isSome := by
    rw [boundBlocks, List.map_filterMap, ← List.filterMap_eq_filter]
    apply List.filterMap_congr
    intro h _
    cases hi : t.boundIndex? h <;> simp [Option.guard, hi]
  rw [orderedPythonBlocks, hbound]
  split
  · exact .refl _
  · exact List.nil_sublist _

theorem mem_orderedPythonBlocks (hx : x ∈ t.orderedPythonBlocks) :
    x ∈ t.pythonBlocks ∧ (t.boundIndex? x).isSome :=
  List.mem_filter.1 (t.orderedPythonBlocks_sublist.subset hx)

theorem pythonBlocks_subset (t : Tree) : t.pythonBlocks ⊆ t.codeBlocks := fun _ hx =>
  List.mem_filter.2 ⟨(List.mem_filter.1 hx).1, isSome_of_isPython (List.mem_filter.1 hx).2⟩

theorem orderedPythonBlocks_subset (t : Tree) : t.orderedPythonBlocks ⊆ t.codeBlocks := fun _ hx =>
  t.pythonBlocks_subset (mem_orderedPythonBlocks hx).1

/-- Each python block has its turn after the shell and vim blocks. -/
theorem ordered_append_subset (t : Tree) : t.orderedPythonBlocks ++
    (t.pythonBlocks.filter fun h => (t.boundIndex? h).isNone) ⊆ t.pythonBlocks :=
  List.append_subset.2 ⟨fun _ hx => (mem_orderedPythonBlocks hx).1, List.filter_sublist.subset⟩

theorem schedule_subset (t : Tree) : t.schedule ⊆ t.codeBlocks :=
  List.append_subset.2 ⟨List.filter_sublist.subset,
    List.Subset.trans t.ordered_append_subset t.pythonBlocks_subset⟩

/-- No block is run twice. -/
theorem WellLinked.nodup_schedule (hl : t.WellLinked) : t.schedule.Nodup := by
  have hnodup (P : Handle → Bool) : ((t.descendants t.root).filter P).Nodup :=
    ((hl.walk_nodup t.root).sublist (List.drop_sublist ..)).filter P
  have hpython : t.pythonBlocks.Nodup := hnodup _
  rw [schedule, List.nodup_append', List.nodup_append']
  refine ⟨(hnodup _).filter _, ⟨(hpython.filter _).sublist t.orderedPythonBlocks_sublist,
    hpython.filter _, fun x hx hlast => ?_⟩, fun x hx hlast => ?_⟩
  · have hnone := (List.mem_filter.1 hlast).2
    rw [Option.isNone_iff_eq_none] at hnone
    simpa [hnone] using (mem_orderedPythonBlocks hx).2
  · have hpython := (List.mem_filter.1 (t.ordered_append_subset hlast)).2
    simpa [hpython] using (List.mem_filter.1 hx).2

/-- All blocks are run in an order that is told by the tree as it was before. -/
theorem Steady.evaluate_eq (ht : t.Steady) :
    t.evaluate ev = t.schedule.foldl (Evaluation.run ev) ⟨t, []⟩ := by
  have hl := ht.wellLinked
  have hothers : (t.codeBlocks.filter fun h => !t.isPython h) ⊆ t.codeBlocks :=
    List.filter_sublist.subset
  obtain ⟨ha, hsteady, -⟩ := Steady.runs ev (e := ⟨t, []⟩) ht hothers
  rw [evaluate, schedule, List.foldl_append, List.foldl_append, ha.orderedPythonBlocks_eq hl]
  obtain ⟨ha', hsteady', -⟩ := Steady.runs ev hsteady
    (ha.codeBlocks_eq hl ▸ t.orderedPythonBlocks_subset)
  -- Whether a python block makes the text of a tab stop is asked when its turn comes
  have hlast (hs : List Handle) (e : Evaluation) (he : e.tree.Steady) (hte : Alike t e.tree)
      (hhs : hs ⊆ t.codeBlocks) :
      hs.foldl (fun e h => if (e.tree.boundIndex? h).isNone then e.run ev h else e) e =
        (hs.filter fun h => (t.boundIndex? h).isNone).foldl (Evaluation.run ev) e := by
    induction hs generalizing e with
    | nil => rfl
    | cons h hs ih =>
      obtain ⟨hh, hhs⟩ := List.cons_subset.1 hhs
      rw [List.foldl_cons, hte.boundIndex?_eq hl (hl.mem_frame_of_code hh), List.filter_cons]
      split
      · obtain ⟨hrun, hsteady, -⟩ := he.run ev (hte.codeBlocks_eq hl ▸ hh)
        exact ih _ hsteady (hte.trans hrun) hhs
      · exact ih e he hte hhs
  exact hlast t.pythonBlocks _ hsteady' (ha.trans ha') t.pythonBlocks_subset

/-! ## What is repeated in the end -/

theorem Settled.render_eq (hs : t.Settled p) (hl : t.WellLinked) (hp : p ∈ t.primaries)
    (hpi : t.index? p = some i) (hm : m ∈ t.placeholdersOf i) (hinside : m ∉ t.walk p)
    (haround : p ∉ t.walk m) :
    t.render m = Transform.resolveBy ((t.placeholder? m).bind (·.transform)) (t.render p) := by
  have hpmem := (List.mem_filter.1 hp).1
  obtain ⟨hmmem, hmi⟩ := List.mem_filter.1 hm
  have hpu := hl.inUse_of_mem_placeholders hpmem
  have hmu := hl.inUse_of_mem_placeholders hmmem
  have hfollows : t.Follows m p := by
    refine ⟨hmmem, by rw [hpi]; simpa using hmi, Bool.eq_false_iff.2 fun habove => haround ?_⟩
    exact (hl.mem_walk_iff hmu).2 ⟨hpu, habove⟩
  have hnot : ¬ t.isAncestorOrSelf p m := fun habove =>
    hinside ((hl.mem_walk_iff hpu).2 ⟨hmu, habove⟩)
  have hflat := hs m hfollows
  rw [repeatedText, if_neg hnot] at hflat
  exact hflat.render hl hmu (isSome_of_mem_placeholders hmmem)

/-- When all blocks have been run, each tab stop that is neither inside of the primary one of its index
nor around it shows what the primary one shows, changed by its transform if it has one, as long as
each block in the primary one makes the text of a tab stop. -/
theorem evaluate_consistent (identity : Nat) (d : Dialect) (source : String) (final : Bool)
    (ev : Evaluator) (hcapacity : (ofSource identity d source).capacity < 2 ^ 32)
    (hacyclic : ∀ i, ¬ Relation.TransGen (ofSnippet identity d source final).Holds i i) :
    let u := ((ofSnippet identity d source final).evaluate ev).tree
    ∀ i : TabIndex, i.isFinal = false → ∀ p ∈ u.primaries, u.index? p = some i →
      (∀ x ∈ u.codeBlocks, x ∈ u.walk p → (u.boundIndex? x).isSome) →
        ∀ m ∈ u.placeholdersOf i, m ∉ u.walk p → p ∉ u.walk m →
          u.render m = Transform.resolveBy ((u.placeholder? m).bind (·.transform)) (u.render p) := by
  intro u i hi p hp hpi hblocks m hm hinside haround
  obtain ⟨hsteady, htold⟩ := steady_ofSnippet identity d source final hcapacity
  have hl := hsteady.wellLinked
  obtain ⟨ha, hlast, htended⟩ := Steady.runs ev
    (e := ⟨ofSnippet identity d source final, []⟩) hsteady (schedule_subset _)
  rw [← hsteady.evaluate_eq] at ha hlast htended
  obtain ⟨hpmem, hprimary⟩ := List.mem_filter.1 hp
  have hleader : p ∈ u.leaders := mem_leaders_iff.2 ⟨hpmem, hprimary, by simp [isFinal, hpi, hi]⟩
  -- Nothing holds itself, and runs change no index, so the tab stop has its final text
  have hground : u.Grounded i := ha.grounded hl fun j _ => hacyclic j
  have hsettled := htended htold.tended p hleader i hpi hground hblocks
  exact hsettled.render_eq hlast.wellLinked hp hpi hm hinside haround

/-- An evaluator that answers all calls alike. -/
def alwaysX : Evaluator := fun _ _ => some "x"

/-- A tree in which one block makes the text of index 2, while the other one is in a final tab stop that
is inside of the tab stop of index 1. -/
def twoBlocks : Tree :=
  ofSnippet 0 .ultiSnips "$\x7b2:``\x7d$2$\x7b1:$\x7b0:``\x7d\x7d$1" false

/-- No tab stop that repeats another one is inside of a primary one. -/
theorem twoBlocks_acyclic (i : TabIndex) : ¬ Relation.TransGen twoBlocks.Holds i i := by
  have hnone : (twoBlocks.primaries.all fun q => (twoBlocks.walk q).all fun m =>
      twoBlocks.isPrimary m || (twoBlocks.index? m).isNone) = true := by cbv
  intro hi
  obtain ⟨j, hij, -⟩ := Relation.TransGen.head'_iff.1 hi
  obtain ⟨-, -, q, hq, -, m, hm, hprimary, hj⟩ := hij
  simp only [List.all_eq_true] at hnone
  have := hnone q hq m hm
  simp [hprimary, hj] at this

/-- Index 2 is repeated as it is in the end, and index 1 is not. -/
theorem evaluate_consistent_twoBlocks :
    (∀ i, ¬ Relation.TransGen twoBlocks.Holds i i) ∧
      let u := (twoBlocks.evaluate alwaysX).tree
      u.render ⟨0, 3, 0⟩ = u.render ⟨0, 1, 0⟩ ∧ u.render ⟨0, 4, 0⟩ = "x" ∧
        u.render ⟨0, 7, 0⟩ = "" := by
  have hcapacity :
      (ofSource 0 .ultiSnips "$\x7b2:``\x7d$2$\x7b1:$\x7b0:``\x7d\x7d$1").capacity = 8 := by cbv
  have htree :
      let u := (twoBlocks.evaluate alwaysX).tree
      (u.primaries, u.index? ⟨0, 1, 0⟩, u.codeBlocks, u.walk ⟨0, 1, 0⟩, u.walk ⟨0, 3, 0⟩,
        (u.boundIndex? ⟨0, 2, 0⟩).isSome, u.placeholdersOf (.ofNat 2),
        (u.placeholder? ⟨0, 3, 0⟩).bind (·.transform), u.render ⟨0, 4, 0⟩, u.render ⟨0, 7, 0⟩) =
      ([⟨0, 1, 0⟩, ⟨0, 4, 0⟩, ⟨0, 5, 0⟩], some (.ofNat 2), [⟨0, 2, 0⟩, ⟨0, 6, 0⟩],
        [⟨0, 1, 0⟩, ⟨0, 2, 0⟩], [⟨0, 3, 0⟩, ⟨0, 8, 0⟩], true, [⟨0, 1, 0⟩, ⟨0, 3, 0⟩], none,
        "x", "") := by cbv
  simp only [Prod.mk.injEq] at htree
  obtain ⟨hprimaries, hindex, hblocks, hinside, haround, hbound, hsecond, hplain, hx, hempty⟩ :=
    htree
  have hshown := evaluate_consistent 0 .ultiSnips
    "$\x7b2:``\x7d$2$\x7b1:$\x7b0:``\x7d\x7d$1" false alwaysX (by rw [hcapacity]; decide)
    twoBlocks_acyclic
  rw [show ofSnippet 0 .ultiSnips "$\x7b2:``\x7d$2$\x7b1:$\x7b0:``\x7d\x7d$1" false = twoBlocks
    from rfl] at hshown
  have hrender := hshown (.ofNat 2) (by decide) ⟨0, 1, 0⟩ (by simp [hprimaries]) hindex ?_
    ⟨0, 3, 0⟩ (by simp [hsecond]) (by simp [hinside]) (by simp [haround])
  · rw [hplain] at hrender
    exact ⟨twoBlocks_acyclic, hrender, hx, hempty⟩
  · intro x hx hmem
    rw [hinside] at hmem
    rw [hblocks] at hx
    obtain rfl : x = ⟨0, 2, 0⟩ := by
      rcases List.mem_pair.1 hx with rfl | rfl
      · rfl
      · simp at hmem
    exact hbound

end TabStop.Tree
