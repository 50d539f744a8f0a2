import TabStop.Proofs.Document.NewNodes
import TabStop.Proofs.Repeat.Repeating
import TabStop.Proofs.Source.RoundTrip
import TabStop.Snippet

/-!
# The primary tab stops of a snippet

Each index of a source gets one primary tab stop before any text is repeated. Then it may be lost:
it may be inside a tab stop that repeats another index. Other tab stops of its index may be left,
and none of them is chosen in its place.
-/

namespace TabStop

/-! ## Text has nothing below it -/

/-- Text has nothing below it. -/
inductive Outline.TextLeaves : Outline → Prop
  | node {m : Marker} {cs : List Outline} (hm : m.text?.isSome → cs = [])
      (hcs : ∀ o ∈ cs, TextLeaves o) : TextLeaves (.node m cs)

theorem Outline.Readable.textLeaves {d : Dialect} {o : Outline} (ho : o.Readable d) :
    o.TextLeaves := by
  -- Only tab stops and variables have anything below them
  have hleaf (m : Marker) : TextLeaves (.node m []) := .node (by simp) (by simp)
  induction ho with
  | text => exact hleaf _
  | @placeholder _ _ _ _ _ ih => exact .node (by simp [Marker.text?]) ih
  | choice => exact .node (by simp [Marker.text?]) (by simpa using hleaf _)
  | placeholderTransform => exact hleaf _
  | @var _ _ _ _ _ _ ih => exact .node (by simp [Marker.text?]) ih
  | varTransform => exact hleaf _
  | code => exact hleaf _

namespace Tree

open Grammar

variable {t u : Tree} {c h x : Handle} {i : TabIndex}

theorem ShowsAll.exists_of_mem {hs : List Handle} {os : List Outline} (hos : t.ShowsAll hs os)
    (hc : c ∈ hs) : ∃ o ∈ os, t.Shows c o := by
  replace hos := hos.forall₂
  induction hos with
  | nil => simp at hc
  | @cons h o _ _ ho _ ih =>
    rcases List.mem_cons.1 hc with rfl | hc
    · exact ⟨o, List.mem_cons_self .., ho⟩
    · obtain ⟨o', ho', hshows⟩ := ih hc
      exact ⟨o', List.mem_cons_of_mem _ ho', hshows⟩

theorem Shows.text_children {o : Outline} {fuel : Nat} (ho : t.Shows h o) (hleaves : o.TextLeaves)
    (hx : x ∈ t.walkFrom fuel h) (htext : (t.slotOf x).marker.text?.isSome) :
    (t.slotOf x).children = [] := by
  induction fuel generalizing h o with
  | zero => simp [walkFrom] at hx
  | succ fuel ih =>
    obtain ⟨m, cs⟩ := o
    obtain ⟨-, hmarker, hall⟩ := ho
    -- The node itself is a text without anything inside, or the text is met below a child
    cases hleaves with
    | node hm hcs =>
      rcases List.mem_cons.1 hx with rfl | hx
      · rw [hmarker] at htext
        rw [hm htext] at hall
        exact List.forall₂_nil_right_iff.1 hall.forall₂
      · obtain ⟨c, hc, hxc⟩ := List.mem_flatMap.1 hx
        obtain ⟨o, ho, hshows⟩ := hall.exists_of_mem hc
        exact ih hshows (hcs o ho) hxc

theorem text_children_ofSource (identity : Nat) (d : Dialect) (source : String)
    (hx : x ∈ (ofSource identity d source).walk (ofSource identity d source).root)
    (htext : ((ofSource identity d source).slotOf x).marker.text?.isSome) :
    ((ofSource identity d source).slotOf x).children = [] := by
  obtain ⟨row, hrow, htells⟩ := readable_ofSource d source
  have hshows := (shows_ofSource identity htells).1
  rw [walk, if_pos hshows.owned] at hx
  refine hshows.text_children (.node (by simp [Marker.text?]) fun o ho => ?_) hx htext
  exact (hrow.readable o ho).textLeaves

/-! ## Before any text is repeated -/

/-- The tree of a source with its primary tab stops chosen. -/
theorem unrepeated_ofSource (identity : Nat) (d : Dialect) (source : String) :
    (ofSource identity d source).assignPrimaries.Unrepeated := by
  obtain ⟨hl, hgeneration⟩ := grown_ofSource identity d source
  have hlinks := sameLinks_assignPrimaries (ofSource identity d source)
  -- Assigning the primaries changes markers only, and no marker of a text
  constructor
  case wellLinked =>
    exact hlinks.wellLinked hl
  case generation =>
    intro x
    rw [hlinks.generation, hgeneration]
  case text =>
    intro x hx htext
    have hroot := hlinks.root_eq
    rw [hlinks.walk_eq, hroot] at hx
    rw [text?_assignPrimaries] at htext
    rw [hlinks.children]
    exact text_children_ofSource identity d source hx htext
  case single =>
    intro i hi
    by_cases hne : (ofSource identity d source).placeholdersOf i = []
    · simp [placeholdersOf_assignPrimaries, hne]
    · obtain ⟨p, hp⟩ := hl.primaries_assigned hi hne
      simp [hp]

/-! ## The final tab stop -/

/-- Adding a final tab stop changes nothing for the other indexes. -/
theorem WellLinked.insertFinal (hl : t.WellLinked) (hi : i.isFinal = false) :
    t.insertFinal.2.placeholdersOf i = t.placeholdersOf i ∧
      ∀ x ∈ t.placeholdersOf i, t.insertFinal.2.isPrimary x = t.isPrimary x := by
  obtain ⟨h, u, hperform, happended⟩ :=
    hl.appendNew (.placeholder { index := .final, primary := true })
  unfold Tree.insertFinal
  split
  · exact ⟨rfl, fun _ _ => rfl⟩
  · simp only [hperform]
    have hplaceholder : ∀ x ∈ t.descendants t.root, u.placeholder? x = t.placeholder? x := by
      intro x hx
      have hwalk := List.mem_of_mem_drop hx
      rw [placeholder?, placeholder?, happended.marker?_eq (hl.mem_walk_root_inUse hwalk)]
    -- The new tab stop is of the final index, so no other list has it
    have hfinal : u.index? h ≠ some i := by
      rw [index?, placeholder?, happended.marker?_new]
      rintro heq
      obtain rfl : TabIndex.final = i := by simpa [Marker.placeholder?] using heq
      simp [TabIndex.isFinal, TabIndex.final, TabIndex.ofNat] at hi
    refine ⟨?_, fun x hx => ?_⟩
    · simp only [placeholdersOf, placeholders, happended.descendants_eq hl, List.filter_filter]
      rw [List.filter_append]
      have hnil : [h].filter (fun a => u.index? a == some i && (u.placeholder? a).isSome) = [] := by
        simp [hfinal]
      rw [hnil, List.append_nil]
      apply List.filter_congr
      intro x hx
      rw [index?, index?, hplaceholder x hx]
    · have hmem := (List.mem_filter.1 ((placeholdersOf_sublist t i).subset hx)).1
      rw [isPrimary, isPrimary, hplaceholder x hmem]

/-! ## Of a whole snippet -/

/-- Of the tab stops of an index that are left, the one that was chosen is the primary one; if it is
lost, there is none. A tree never has more slots than the numbers of 32 bits can tell apart. -/
theorem ofSnippet_primaries (identity : Nat) (d : Dialect) (source : String) (final : Bool)
    (hcapacity : (ofSource identity d source).capacity ≤ 2 ^ 32) (hi : i.isFinal = false)
    (hne : (ofSnippet identity d source final).placeholdersOf i ≠ []) :
    ∃ p, (ofSource identity d source).assignPrimaries.primary? i = some p ∧
      ((ofSnippet identity d source final).placeholdersOf i).filter
          (ofSnippet identity d source final).isPrimary =
        if (ofSource identity d source).assignPrimaries.isBelow
          (ofSource identity d source).assignPrimaries.overwritten p then [] else [p] := by
  have ht := unrepeated_ofSource identity d source
  have hlinks := sameLinks_assignPrimaries (ofSource identity d source)
  have hl := (grown_ofSource identity d source).1
  have hc := ht.repeatAll (by rw [capacity, hlinks.size]; exact hcapacity)
  -- A final tab stop that is added is of no account here
  have hfinal : (ofSnippet identity d source final).placeholdersOf i =
        (ofSource identity d source).settle.placeholdersOf i ∧
      ((ofSnippet identity d source final).placeholdersOf i).filter
          (ofSnippet identity d source final).isPrimary =
        ((ofSource identity d source).settle.placeholdersOf i).filter
          (ofSource identity d source).settle.isPrimary := by
    unfold ofSnippet
    cases final with
    | false => exact ⟨rfl, rfl⟩
    | true =>
      obtain ⟨hsame, hmarked⟩ := hc.wellLinked.insertFinal hi
      show (settle _).insertFinal.2.placeholdersOf i = _ ∧
        ((settle _).insertFinal.2.placeholdersOf i).filter (settle _).insertFinal.2.isPrimary = _
      unfold settle
      rw [hsame]
      exact ⟨rfl, List.filter_congr hmarked⟩
  rw [hfinal.1] at hne
  rw [hfinal.2]
  unfold settle at hne ⊢
  rw [hc.placeholdersOf_eq ht.wellLinked] at hne ⊢
  have hne : (ofSource identity d source).placeholdersOf i ≠ [] := by
    intro hnil
    simp [placeholdersOf_assignPrimaries, hnil] at hne
  -- The index had one primary tab stop; it is left or lost like any other
  obtain ⟨p, hp⟩ := hl.primaries_assigned hi hne
  refine ⟨p, by rw [primary?, ← List.head?_filter, hp]; rfl, ?_⟩
  rw [hc.filter_isPrimary ht.wellLinked (placeholdersOf_sublist _ i).subset, hp]
  cases hbelow : (ofSource identity d source).assignPrimaries.isBelow
    (ofSource identity d source).assignPrimaries.overwritten p <;> simp [hbelow]

/-- The second tab stop of index 1 repeats the first, and the primary one of index 2 is lost with
what was inside. The other tab stop of index 2 is left, and none of that index is a primary one. -/
theorem ofSnippet_primaries_nested :
    (ofSnippet 0 .textMate "$\x7b1:a\x7d$\x7b1:$\x7b2:b\x7d\x7d$2" false).placeholdersOf
        (.ofNat 2) ≠ [] ∧
      ((ofSnippet 0 .textMate "$\x7b1:a\x7d$\x7b1:$\x7b2:b\x7d\x7d$2" false).placeholdersOf
        (.ofNat 2)).filter
          (ofSnippet 0 .textMate "$\x7b1:a\x7d$\x7b1:$\x7b2:b\x7d\x7d$2" false).isPrimary = [] := by
  have hcapacity :
      (ofSource 0 .textMate "$\x7b1:a\x7d$\x7b1:$\x7b2:b\x7d\x7d$2").capacity = 7 := by cbv
  have hleft : (ofSnippet 0 .textMate "$\x7b1:a\x7d$\x7b1:$\x7b2:b\x7d\x7d$2" false).placeholdersOf
      (.ofNat 2) = [⟨0, 6, 0⟩] := by cbv
  have hne : (ofSnippet 0 .textMate "$\x7b1:a\x7d$\x7b1:$\x7b2:b\x7d\x7d$2" false).placeholdersOf
      (.ofNat 2) ≠ [] := by simp [hleft]
  have hchosen : (ofSource 0 .textMate
      "$\x7b1:a\x7d$\x7b1:$\x7b2:b\x7d\x7d$2").assignPrimaries.primary?
        (.ofNat 2) = some ⟨0, 4, 0⟩ := by cbv
  have hlost : (ofSource 0 .textMate
      "$\x7b1:a\x7d$\x7b1:$\x7b2:b\x7d\x7d$2").assignPrimaries.isBelow
      (ofSource 0 .textMate "$\x7b1:a\x7d$\x7b1:$\x7b2:b\x7d\x7d$2").assignPrimaries.overwritten
        ⟨0, 4, 0⟩ = true := by cbv
  obtain ⟨p, hp, hprimaries⟩ := ofSnippet_primaries 0 .textMate
    "$\x7b1:a\x7d$\x7b1:$\x7b2:b\x7d\x7d$2" false (by rw [hcapacity]; decide) (by decide) hne
  obtain rfl : ⟨0, 4, 0⟩ = p := Option.some.inj (hchosen.symm.trans hp)
  rw [if_pos hlost] at hprimaries
  exact ⟨hne, hprimaries⟩

end Tree

end TabStop
