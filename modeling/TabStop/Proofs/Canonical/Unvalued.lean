import TabStop.Proofs.Canonical.Reproducing
import TabStop.Proofs.Resolve.Room

/-!
# A snippet that is written when its variables have no values

A resolver that knows no value leaves a snippet without variables: each has become a tab stop or
text. Such a snippet can be written, as a tab stop may hold what a variable may hold; but the name
of a variable can be made into no text at all by its transform, and an empty text is not read again.
What stands around it would be next to each other then.
-/

namespace TabStop

/-! ## What may stand for a variable -/

/-- What a node is once its variables have been left without values: what it was; or in place of a
variable, text that is not empty or a tab stop. -/
inductive Unvalued : Marker → Marker → Prop
  | same (m : Marker) : Unvalued m m
  | named (v : Variable) {s : String} (hs : s ≠ "") : Unvalued (.var v) (.text s)
  | promoted (v : Variable) {n : Nat} (hn : n < Grammar.indexBound) :
      Unvalued (.var v) (.placeholder { index := .ofNat n, transform := v.transform })

namespace Unvalued

variable {m m' : Marker} {ms ms' : List Marker}

theorem choice?_eq (hm : Unvalued m m') : m'.choice? = m.choice? := by
  cases hm <;> rfl

theorem eq_of_text (hm : Unvalued m m') (htext : m.text?.isSome) : m' = m := by
  cases hm with
  | same => rfl
  | _ => simp [Marker.text?] at htext

theorem forall_mem {P : Marker → Prop} (hP : ∀ m m', Unvalued m m' → P m → P m')
    (hms : List.Forall₂ Unvalued ms ms') (hall : ∀ m ∈ ms, P m) : ∀ m ∈ ms', P m := by
  induction hms with
  | nil => simp
  | cons hm _ ih =>
    obtain ⟨hPm, hrest⟩ := List.forall_mem_cons.1 hall
    exact List.forall_mem_cons.2 ⟨hP _ _ hm hPm, ih hrest⟩

/-- A node may hold what is left of what it held, if there is nothing in a variable that becomes
text. -/
theorem admits (hm : Unvalued m m') (ha : m.Admits ms) (hms : List.Forall₂ Unvalued ms ms')
    (hnil : m'.text?.isSome → ms = []) : m'.Admits ms' := by
  have hchoice := forall_mem (P := fun m => m.choice? = none)
    (fun _ _ hm h => hm.choice?_eq.trans h) hms
  have htext := forall_mem (P := fun m => m.text?.isSome)
    (fun _ _ hm h => hm.eq_of_text h ▸ h) hms
  -- A node stays, or a variable has become its name as text, or a tab stop with the same nodes
  -- inside
  cases hm with
  | same =>
    cases ha with
    | text hs => cases hms; exact .text hs
    | options hne hos => cases hms; exact .options hne hos
    | placeholder hn h => exact .placeholder hn (hchoice h)
    | choice hn hfinal =>
      obtain ⟨k, rest, hk, hrest, rfl⟩ := List.forall₂_cons_left_iff.1 hms
      cases hk
      cases hrest
      exact .choice hn hfinal
    | placeholderTransform hn ht h => exact .placeholderTransform hn ht (htext h)
    | var hname haccepts h => exact .var hname haccepts (hchoice h)
    | varTransform hname haccepts ht => cases hms; exact .varTransform hname haccepts ht
  | named v hs =>
    obtain rfl := hnil rfl
    cases hms
    exact .text hs
  | promoted v hn =>
    cases ha with
    | var _ _ h => exact .placeholder hn (hchoice h)
    | varTransform _ _ ht => exact .placeholderTransform hn ht (htext (by simp))

end Unvalued

namespace Tree

variable {t u : Tree} {r : Resolver} {q : Inquiry} {st : Resolution} {h x : Handle}
  {hs : List Handle} {v : Variable} {m : Marker}

/-! ## Resolving without values -/

theorem resolved_foldl_of_none (hnone : ∀ asked name, r asked name = none) (hs : List Handle)
    (q : Inquiry) : (hs.foldl (t.inquire r) q).resolved = q.resolved := by
  induction hs generalizing q with
  | nil => rfl
  | cons h hs ih =>
    rw [List.foldl_cons, ih]
    unfold inquire
    simp only [hnone]
    split
    · rfl
    split
    · rfl
    split <;> rfl

theorem Outcome.unvalued (ho : Outcome r t h v m) (hnone : ∀ asked name, r asked name = none)
    (hname : Transform.resolveBy v.transform v.name ≠ "") : Unvalued (.var v) m := by
  cases ho with
  | valued asked s _ hs => simp [hnone] at hs
  | named => exact .named v hname
  | promoted n _ hmax => exact .promoted v (hmax.trans (by decide))

/-- The tree can be written when all of its variables have been left without values. -/
theorem Tracks.writable (ht : Tracks r t [] q st) (hl : t.WellLinked) (hw : t.Writable)
    (hnone : ∀ asked name, r asked name = none) (hresolved : q.resolved = [])
    (hname : ∀ x ∈ t.variableNodes, ∀ v, t.var? x = some v →
      Transform.resolveBy v.transform v.name ≠ "") : st.tree.Writable := by
  have hrootu := Linked.root_inUse hl
  have houtcome {x : Handle} (hx : x ∈ t.variableNodes) :
      ∃ v, t.var? x = some v ∧ Outcome r t x v (st.tree.slotOf x).marker :=
    (ht.became hx (by simp)).resolve_left (by simp [hresolved])
  have hunvalued {x : Handle} (hx : t.InUse x) :
      Unvalued (t.slotOf x).marker (st.tree.slotOf x).marker := by
    by_cases hvar : x ∈ t.variableNodes
    · obtain ⟨v, hv, ho⟩ := houtcome hvar
      rw [(var?_eq_some hv).2]
      exact ho.unvalued hnone (hname x hvar v hv)
    · rw [ht.marker hx (Or.inl hvar)]
      exact .same _
  have hmarkers {x : Handle} (hx : t.InUse x) :
      List.Forall₂ Unvalued (t.childMarkers x) (st.tree.childMarkers x) := by
    rw [childMarkers, childMarkers, ht.links.children, List.forall₂_map_left_iff,
      List.forall₂_map_right_iff, List.forall₂_same]
    exact fun c hc => hunvalued (Linked.child hl hx hc).1
  constructor
  case dialect => rw [ht.dialect, hw.dialect]
  case root =>
    have hroot := hunvalued hrootu
    rw [hw.root] at hroot
    rw [ht.links.root_eq]
    generalize (st.tree.slotOf t.root).marker = k at hroot
    cases hroot
    rfl
  case top =>
    rw [ht.links.root_eq]
    exact Unvalued.forall_mem (P := fun m => m.choice? = none)
      (fun _ _ hm h => hm.choice?_eq.trans h) (hmarkers hrootu) hw.top
  case admits =>
    intro x hx
    rw [descendants, ht.links.walk_eq, ht.links.root_eq] at hx
    have hxu := (hl.mem_descendants_iff.1 hx).1
    refine (hunvalued hxu).admits (hw.admits x hx) (hmarkers hxu) fun htext => ?_
    by_cases hvar : x ∈ t.variableNodes
    · -- A variable that becomes text has no default
      obtain ⟨v, -, ho⟩ := houtcome hvar
      generalize (st.tree.slotOf x).marker = k at ho htext
      cases ho with
      | named hnil => simp [childMarkers, hnil]
      | _ => simp [Marker.text?] at htext
    · rw [ht.marker hxu (Or.inl hvar)] at htext
      have hleaf := hw.textLeaves hl x (List.mem_of_mem_drop hx) htext
      simp [childMarkers, hleaf]

/-! ## Snippets -/

/-- Tab stops can be repeated once primary ones have been chosen. A tree never has more slots than
the numbers of 32 bits can tell apart. -/
theorem WellLinked.repeatable_assignPrimaries (hl : t.WellLinked)
    (hcapacity : t.capacity ≤ 2 ^ 32) : t.assignPrimaries.Repeatable := by
  have hlinks := sameLinks_assignPrimaries t
  refine (hlinks.wellLinked hl).repeatable ((capacity_assignPrimaries t).trans_le hcapacity)
    fun i hi => ?_
  by_cases hne : t.placeholdersOf i = []
  · simp [placeholdersOf_assignPrimaries, hne]
  · obtain ⟨p, hp⟩ := hl.primaries_assigned hi hne
    simp [hp]

/-- If text has nothing below it, a tree can be brought up to date once primary tab stops have been
chosen. -/
theorem TextLeaves.settle (hleaves : t.TextLeaves) (hl : t.WellLinked)
    (hcapacity : t.capacity ≤ 2 ^ 32) :
    t.settle.Steady ∧ t.settle.UpToDate ∧ t.settle.TextLeaves := by
  have hrepeatable := hl.repeatable_assignPrimaries hcapacity
  have hassigned := hleaves.assignPrimaries
  obtain ⟨hsteady, htold⟩ := hassigned.steady_repeatAll hrepeatable
  exact ⟨hsteady, htold, hassigned.repeatAll hrepeatable⟩

/-- What can be written then can be written still when it has been brought up to date. -/
theorem Writable.settle (hw : t.Writable) (hl : t.WellLinked) (hcapacity : t.capacity ≤ 2 ^ 32) :
    t.settle.Steady ∧ t.settle.UpToDate ∧ t.settle.Writable := by
  have hassigned := hw.sameLinks (sameLinks_assignPrimaries t) (dialect_assignPrimaries t)
    (unmarked_assignPrimaries t)
  obtain ⟨hsteady, htold, -⟩ := (hw.textLeaves hl).settle hl hcapacity
  exact ⟨hsteady, htold, hassigned.repeatAll (hl.repeatable_assignPrimaries hcapacity)⟩

/-- When the variables of a snippet have been left without values, it is up to date and can be
written. -/
theorem Writable.resolveVariables? (hw : t.Writable) (hl : t.WellLinked)
    (hcapacity : t.capacity ≤ 2 ^ 32) (hnone : ∀ asked name, r asked name = none)
    (hname : ∀ x ∈ t.variableNodes, ∀ v, t.var? x = some v →
      Transform.resolveBy v.transform v.name ≠ "") {names : List String}
    (hresolve : t.resolveVariables? r = some (names, u)) :
    u.Steady ∧ u.UpToDate ∧ u.Writable := by
  obtain ⟨hstart, st, hrun, -, rfl⟩ := resolveVariables?_cases hresolve
  have htracks := hl.tracks_of_run hw.dialect hstart hrun
  have hlinks := htracks.links
  have hwritable := htracks.writable hl hw hnone (resolved_foldl_of_none hnone _ _) hname
  exact hwritable.settle (hlinks.wellLinked hl) (by rwa [capacity, hlinks.size])

/-- A snippet is resolved, and there are no values. What is written then shows the same text when it
is read, unless a transform makes the name of a variable empty, or indexes hold each other in a
circle, or what is written does not tell the text. A tree never has more slots than the numbers of
32 bits can tell apart. -/
theorem resolveVariables?_text_ofSnippet (identity : Nat) (source : String) (final : Bool)
    (hcapacity : (ofSource identity .textMate source).capacity < 2 ^ 32)
    (hcapacity' : (ofSnippet identity .textMate source final).capacity ≤ 2 ^ 32)
    (hnone : ∀ asked name, r asked name = none)
    (hname : ∀ x ∈ (ofSnippet identity .textMate source final).variableNodes, ∀ v,
      (ofSnippet identity .textMate source final).var? x = some v →
        Transform.resolveBy v.transform v.name ≠ "") {names : List String}
    (hresolve : (ofSnippet identity .textMate source final).resolveVariables? r = some (names, u))
    (hacyclic : ∀ i, ¬ Relation.TransGen u.Holds i i) (hleg : u.Legible) (identity' : Nat)
    (final' : Bool) (hcapacityu : (ofSource identity' .textMate u.source).capacity ≤ 2 ^ 32) :
    (ofSnippet identity' .textMate u.source final').text = u.text := by
  obtain ⟨hw, -⟩ := writable_ofSnippet identity source final hcapacity.le
  have hl := (steady_ofSnippet identity .textMate source final hcapacity).1.wellLinked
  obtain ⟨hsteady, htold, hwu⟩ := hw.resolveVariables? hl hcapacity' hnone hname hresolve
  exact hsteady.text_ofSnippet htold hwu hacyclic hleg identity' final' hcapacityu

/-- A variable with a default, the same variable without one, and another variable. -/
def unvalued : Tree := ofSnippet 0 .textMate "$\x7bx:a\x7d $x $y" false

/-- The first variable becomes a tab stop, the second one repeats it, and the third one becomes its
name. What is written then shows that text. -/
theorem resolveVariables?_text_unvalued :
    (ofSource 0 .textMate "$\x7bx:a\x7d $x $y").capacity < 2 ^ 32 ∧ unvalued.capacity ≤ 2 ^ 32 ∧
      (∀ x ∈ unvalued.variableNodes, ∀ v, unvalued.var? x = some v →
        Transform.resolveBy v.transform v.name ≠ "") ∧
      ∃ u, unvalued.resolveVariables? (fun _ _ => none) = some (["x", "x", "y"], u) ∧
        (∀ i, ¬ Relation.TransGen u.Holds i i) ∧ u.Legible ∧
        (ofSource 0 .textMate u.source).capacity ≤ 2 ^ 32 ∧
        u.source = "$\x7b1:a\x7d $\x7b1:a\x7d y" ∧
        (ofSnippet 0 .textMate u.source true).text = "a a y" := by
  have hcapacity : ((ofSource 0 .textMate "$\x7bx:a\x7d $x $y").capacity, unvalued.capacity) =
      (7, 7) := by cbv
  simp only [Prod.mk.injEq] at hcapacity
  have hvariables : unvalued.variableNodes.map unvalued.var? =
      [some { name := "x" }, some { name := "x" }, some { name := "y" }] := by cbv
  have hresolved : (unvalued.resolveVariables? fun _ _ => none).map (fun p =>
      let u := p.2
      (p.1, u.text, u.source, u.holdings, u.placeholders.filterMap u.index?,
        u.placeholders.map (fun x => (u.placeholder? x).bind (·.transform)), u.primary? (.ofNat 1),
        u.firstChoice? (.ofNat 1), (ofSource 0 .textMate u.source).capacity)) =
    some (["x", "x", "y"], "a a y", "$\x7b1:a\x7d $\x7b1:a\x7d y", [], [.ofNat 1, .ofNat 1],
      [none, none], some ⟨0, 1, 0⟩, some ⟨0, 1, 0⟩, 7) := by cbv
  obtain ⟨⟨names, u⟩, hresolve, hu⟩ := Option.map_eq_some_iff.1 hresolved
  simp only [Prod.mk.injEq] at hu
  obtain ⟨rfl, htext, hsource, hholdings, hindexes, htransforms, hprimary, hfirst, hcapacityu⟩ := hu
  have hlt : (ofSource 0 .textMate "$\x7bx:a\x7d $x $y").capacity < 2 ^ 32 := by
    rw [hcapacity.1]
    decide
  have hle : unvalued.capacity ≤ 2 ^ 32 := by
    rw [hcapacity.2]
    decide
  have hname : ∀ x ∈ unvalued.variableNodes, ∀ v, unvalued.var? x = some v →
      Transform.resolveBy v.transform v.name ≠ "" := by
    intro x hx v hv
    have hmem : some v ∈ unvalued.variableNodes.map unvalued.var? := List.mem_map.2 ⟨x, hx, hv⟩
    simp only [hvariables, List.mem_cons, Option.some.injEq, List.not_mem_nil, or_false] at hmem
    rcases hmem with rfl | rfl | rfl <;> decide
  -- No tab stop is inside another, and the only index is that of a plain one
  have hacyclic := acyclic_of_holdings (t := u) (fun _ => 0) (by simp [hholdings])
  have hleg : u.Legible := by
    refine ⟨fun x hx htransform _ => ?_, rechoosable_of_indexes fun i hi _ => ?_⟩
    · have hmem := List.mem_map_of_mem (f := fun x => (u.placeholder? x).bind (·.transform)) hx
      rw [htransforms, List.mem_pair, or_self] at hmem
      simp [hmem] at htransform
    · obtain rfl : i = .ofNat 1 := by simpa [hindexes] using hi
      exact ⟨_, hprimary, Or.inl hfirst⟩
  have hleu : (ofSource 0 .textMate u.source).capacity ≤ 2 ^ 32 := by
    rw [hcapacityu]
    decide
  refine ⟨hlt, hle, hname, u, hresolve, hacyclic, hleg, hleu, hsource, ?_⟩
  rw [← htext]
  exact resolveVariables?_text_ofSnippet 0 _ false hlt hle (fun _ _ => rfl) hname hresolve hacyclic
    hleg 0 true hleu

end Tree

end TabStop
