import TabStop.Proofs.Repeat.FirstPass
import TabStop.Proofs.Edit.Refilling

/-!
# What has been put into a node

When the content of a node has been replaced, the tab stops of the snippet are brought up to date. What
has been put into the node stays there, unless the node repeats a primary tab stop then, or is inside of
one that does: that shows the text of the primary tab stop and nothing else.
-/

namespace TabStop.Tree

variable {t u : Tree} {c h : Handle} {cs : List Handle} {s : String}

/-- A text is told by its slot. -/
theorem marker?_eq_text (hc : t.InUse c) :
    t.marker? c = some (.text s) ↔ (t.slotOf c).marker.text? = some s := by
  rw [marker?, if_pos hc.owned, Option.some.injEq]
  cases (t.slotOf c).marker <;> simp [Marker.text?]

/-- What has been put into a node is kept. Nodes that come in may be from anywhere, but none is given
twice. If that is not refused, and neither the node nor one above it is rewritten when the primary tab
stops have been chosen after that, the node is in the document still, the nodes that came in are all its
children, in their order, and each text among them is what it was. A tree never has more slots than the
numbers of 32 bits can tell apart. -/
theorem replaceSubtree_keeps (hl : t.WellLinked) (hcapacity : t.capacity ≤ 2 ^ 32)
    (hnodup : cs.Nodup) (hcs : ∀ c ∈ cs, t.InUse c)
    (hok : (replaceSubtree h cs).perform t = (.ok (), u))
    (hfree : ∀ m ∈ h :: t.ancestors h,
      ¬ ((overwrite h cs).after t).assignPrimaries.Rewritten m) :
    u.isAttached h ∧ u.children h = cs ∧
      ∀ c ∈ cs, ∀ s, t.marker? c = some (.text s) → u.marker? c = some (.text s) := by
  obtain ⟨hreplaceable, hmove, v, hv, hafter, rfl⟩ := hl.replaceSubtree_ok hnodup hcs hok
  rw [← hafter] at hfree
  have hlinks := sameLinks_assignPrimaries v
  have habove := hv.ancestors_self hl hmove
  have hself := hlinks.inUse_iff.2 hv.self
  have hupwards := hlinks.ancestors_eq hv.wellLinked hv.self
  have hrepeatable := hv.wellLinked.repeatable_assignPrimaries
    (by rw [hafter, capacity_overwrite]; exact hcapacity)
  have hintact := hrepeatable.intact_repeatAll hself (by rwa [hupwards, habove])
  have hlu := hrepeatable.remains_repeatAll.1.wellLinked
  have hchildren : (v.settle.slotOf h).children = cs := by
    rw [settle, hintact.children, hlinks.children, hv.children_self]
  refine ⟨?_, ?_, fun c hc s htext => ?_⟩
  · -- The way up to the root is what it was
    have hroot : v.settle.root = t.root := by
      rw [settle, hrepeatable.remains_repeatAll.1.root_eq, hlinks.root_eq, hv.root_eq]
    have hattached := hl.isAttached_iff_above.1 hreplaceable.attached
    rw [settle] at hroot ⊢
    rw [hlu.isAttached_iff_above, hroot, hintact.ancestors_eq, hupwards, habove]
    exact ⟨hintact.inUse, hattached.2⟩
  · rw [settle] at hchildren ⊢
    rw [WellLinked.children_eq hintact.inUse, hchildren]
  · have hcv := (Linked.child hv.wellLinked hv.self (hv.children_self.symm ▸ hc)).1
    have hcu := (Linked.child hlu hintact.inUse (hchildren.symm ▸ hc)).1
    have hmarker := hintact.marker c (by rw [hlinks.children, hv.children_self]; exact hc)
    rw [marker?_eq_text (hcs c hc)] at htext
    rw [settle, marker?_eq_text hcu, hmarker, text?_assignPrimaries, hv.marker hcv, htext]

/-- A tab stop that is repeated, and a text that stands alone. -/
def loose : Tree := ((ofSnippet 0 .textMate "$\x7b1:a\x7d$1" false).alloc (.text "x")).2

theorem wellLinked_loose : loose.WellLinked := by
  have hsource : (ofSource 0 .textMate "$\x7b1:a\x7d$1").capacity = 4 := by cbv
  have ht : (ofSnippet 0 .textMate "$\x7b1:a\x7d$1" false).Usable :=
    .ofSnippet 0 .textMate _ false (by rw [hsource]; decide)
  exact (Linked.allocated ht.wellLinked (.text "x")).wellLinked ht.wellLinked

/-- The text is put before that of the tab stop, which keeps both. What repeats the tab stop shows
them. -/
theorem replaceSubtree_keeps_loose :
    (∀ m ∈ ⟨0, 1, 0⟩ :: loose.ancestors ⟨0, 1, 0⟩, ¬ ((overwrite ⟨0, 1, 0⟩
      [⟨0, 5, 0⟩, ⟨0, 2, 0⟩]).after loose).assignPrimaries.Rewritten m) ∧
      ∃ u, (replaceSubtree ⟨0, 1, 0⟩ [⟨0, 5, 0⟩, ⟨0, 2, 0⟩]).perform loose = (.ok (), u) ∧
        u.text = "xaxa" ∧ u.children ⟨0, 1, 0⟩ = [⟨0, 5, 0⟩, ⟨0, 2, 0⟩] ∧
          u.marker? ⟨0, 5, 0⟩ = some (.text "x") := by
  have hok : ((replaceSubtree ⟨0, 1, 0⟩ [⟨0, 5, 0⟩, ⟨0, 2, 0⟩]).perform loose).1 = .ok () := by cbv
  have htree : (loose.capacity, loose.free, loose.owns ⟨0, 5, 0⟩, loose.owns ⟨0, 2, 0⟩,
      loose.ancestors ⟨0, 1, 0⟩, loose.marker? ⟨0, 5, 0⟩) =
    (6, [], true, true, [⟨0, 0, 0⟩], some (.text "x")) := by cbv
  have htext : ((replaceSubtree ⟨0, 1, 0⟩ [⟨0, 5, 0⟩, ⟨0, 2, 0⟩]).after loose).text = "xaxa" := by
    cbv
  simp only [Prod.mk.injEq] at htree
  obtain ⟨hcapacity, hfree, hnew, hold, habove, hmarker⟩ := htree
  have hcs : ∀ c ∈ ([⟨0, 5, 0⟩, ⟨0, 2, 0⟩] : List Handle), loose.InUse c := by
    simpa using ⟨⟨hnew, by simp [hfree]⟩, ⟨hold, by simp [hfree]⟩⟩
  obtain ⟨-, -, v, hv, hafter, -⟩ := wellLinked_loose.replaceSubtree_ok (by decide) hcs
    (Prod.ext hok rfl)
  have hrepeatable := hv.wellLinked.repeatable_assignPrimaries
    (by rw [hafter, capacity_overwrite, hcapacity]; decide)
  rw [hafter] at hrepeatable
  -- The node is a primary tab stop, and above it there is the root only
  have hstops : (((overwrite ⟨0, 1, 0⟩ [⟨0, 5, 0⟩, ⟨0, 2, 0⟩]).after
        loose).assignPrimaries.placeholders,
      ((overwrite ⟨0, 1, 0⟩ [⟨0, 5, 0⟩, ⟨0, 2, 0⟩]).after
        loose).assignPrimaries.isPrimary ⟨0, 1, 0⟩) = ([⟨0, 1, 0⟩, ⟨0, 3, 0⟩], true) := by cbv
  simp only [Prod.mk.injEq] at hstops
  have hkept : ∀ m ∈ ⟨0, 1, 0⟩ :: loose.ancestors ⟨0, 1, 0⟩, ¬ ((overwrite ⟨0, 1, 0⟩
      [⟨0, 5, 0⟩, ⟨0, 2, 0⟩]).after loose).assignPrimaries.Rewritten m := by
    intro m hm hrewritten
    obtain ⟨hmem, hprimary⟩ := hrewritten.of_remains hrepeatable
    rw [habove] at hm
    rw [hstops.1] at hmem
    rcases List.mem_pair.1 hm with rfl | rfl
    · rw [hstops.2] at hprimary
      simp at hprimary
    · simp at hmem
  obtain ⟨-, hchildren, htexts⟩ := replaceSubtree_keeps wellLinked_loose
    (by rw [hcapacity]; decide) (by decide) hcs (Prod.ext hok rfl) hkept
  exact ⟨hkept, _, Prod.ext hok rfl, htext, hchildren, htexts _ (by simp) _ hmarker⟩

/-- If the text is put into the tab stop that repeats the other one, it becomes what that one shows. -/
theorem replaceSubtree_changes_text : loose.marker? ⟨0, 5, 0⟩ = some (.text "x") ∧
    ((replaceSubtree ⟨0, 3, 0⟩ [⟨0, 5, 0⟩]).perform loose).1 = .ok () ∧
      ((replaceSubtree ⟨0, 3, 0⟩ [⟨0, 5, 0⟩]).after loose).marker? ⟨0, 5, 0⟩ =
        some (.text "a") := by
  refine ⟨?_, ?_, ?_⟩ <;> cbv

end TabStop.Tree
