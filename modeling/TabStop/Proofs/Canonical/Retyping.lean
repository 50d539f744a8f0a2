import TabStop.Proofs.Canonical.Reproducing
import TabStop.Proofs.Edit.Typing

/-!
# A snippet that is written after typing

What is typed into a primary tab stop is written as the default of that tab stop, and of all that
repeat it without a transform. When that is read again, the text is the same, unless there is a tab
stop whose text is not written, or whose text is changed by the choice of another primary tab stop.
-/

namespace TabStop.Tree

variable {t u : Tree} {p x : Handle} {s : String}

/-- A text that is not empty is all that is in the node then. -/
theorem Overtyped.overwritten (hu : Overtyped t p s u) (hl : t.WellLinked) (hp : t.InUse p)
    (hs : s ≠ "") : Overwritten t p s u := by
  have ha := Linked.allocated hl (.text s)
  obtain ⟨v, hperform, hv⟩ := overwrite_overwritten hl (ha.grown hl) hp (Or.inr rfl)
    (fun d hd => List.mem_singleton.1 hd ▸ freshText_alloc hl s)
    (fun x hx => ((ha.inUse_iff x).1 hx).imp_left List.mem_singleton.2)
    (Or.inr ⟨hs, _, rfl, ha.marker⟩)
  obtain rfl : v = u := (Prod.mk.inj (hperform.symm.trans hu.perform)).2
  exact hv

/-- A text in a tab stop without transform is written. -/
theorem Concealed.shown (hc : t.Concealed) (hs : Shown t p u) (hr : Remains t u) (hl : t.WellLinked)
    (hp : t.InUse p) (hplain : t.isPlain p) : u.Concealed := by
  intro x hx htransform hkind
  have hk := hr.kept_of_mem hx
  have hxt := hr.mem_placeholders hl hx
  rw [hk.placeholder?_eq] at htransform
  rw [hk.isPrimary_eq, hk.isFinal_eq] at hkind
  have hne : x ≠ p := by
    rintro rfl
    simp [bind_transform_of_isPlain hplain] at htransform
  -- In the tab stop that is typed into there is only text
  have hout : x ∉ t.walk p := by
    intro hmem
    have habove := (hl.mem_walk_of_ne hp hk.before hne).1 hmem
    rw [← hk.ancestors_eq] at habove
    have hbare : u.Bare p := hs.texts
    exact hbare.solitary hs.wellLinked (hs.inUse hp (Or.inl rfl)) x hx habove
  rw [hs.children hk.before hout]
  exact hc x hxt htransform hkind

/-- Typing leaves a snippet that can be written, with nothing in a tab stop with a transform that
does not repeat another one. -/
theorem Steady.typeText (ht : t.Steady) (hw : t.Writable) (hc : t.Concealed) (hp : p ∈ t.leaders)
    (hplain : t.isPlain p) (hs : s ≠ "") : ∃ u, (Tree.typeText p s).perform t = (.ok (), u) ∧
      Remains t u ∧ u.Steady ∧ u.UpToDate ∧ u.Writable ∧ u.Concealed := by
  have hl := ht.wellLinked
  have hprimary := (List.mem_filter.1 hp).1
  have hpmem := (mem_leaders_iff.1 hp).1
  have hpu := hl.inUse_of_mem_placeholders hpmem
  obtain ⟨v, hv⟩ := hl.exists_overtyped hpu s
  have hover := hv.overwritten hl hpu hs
  have hremains := hv.remains hl hpu
  have hdialect : v.dialect = t.dialect := by
    have hkeeps := keepsDialect_overwrite p [(t.alloc (.text s)).1] (t.alloc (.text s)).2
    rw [hv.perform, dialect_alloc] at hkeeps
    exact hkeeps
  have hvr := hremains.repeatable ht.toRepeatable
  have hwv := hw.shown hl hpmem hv.shown hover.flat hdialect
  obtain ⟨hsteady, htold⟩ := (hwv.textLeaves hvr.wellLinked).steady_repeatAll hvr
  exact ⟨v.repeatAll, hv.typeText_perform hl hprimary, hremains.trans hvr.remains_repeatAll.1,
    hsteady, htold, hwv.repeatAll hvr,
    (hc.shown hv.shown hremains hl hpu hplain).repeatAll hvr⟩

/-- A text that is not empty is typed into a primary tab stop of a snippet, which has no transform.
What is written then shows the same text when it is read, unless indexes have held each other in a
circle, or an index has no primary tab stop any more, or another one is chosen and a tab stop gets
lost by that. A tree never has more slots than the numbers of 32 bits can tell apart. -/
theorem typeText_text_ofSnippet (identity : Nat) (source : String) (final : Bool)
    (hcapacity : (ofSource identity .textMate source).capacity < 2 ^ 32)
    (hacyclic : ∀ i, ¬ Relation.TransGen (ofSnippet identity .textMate source final).Holds i i)
    (hp : p ∈ (ofSnippet identity .textMate source final).leaders)
    (hplain : (ofSnippet identity .textMate source final).isPlain p) (hs : s ≠ "") :
    ∃ u, (typeText p s).perform (ofSnippet identity .textMate source final) = (.ok (), u) ∧
      (u.Rechoosable u.Solitary → ∀ (identity' : Nat) (final' : Bool),
        (ofSource identity' .textMate u.source).capacity ≤ 2 ^ 32 →
          (ofSnippet identity' .textMate u.source final').text = u.text) := by
  obtain ⟨ht, -⟩ := steady_ofSnippet identity .textMate source final hcapacity
  obtain ⟨hw, hc⟩ := writable_ofSnippet identity source final hcapacity.le
  obtain ⟨u, hperform, hremains, hsteady, htold, hwu, hcu⟩ := ht.typeText hw hc hp hplain hs
  refine ⟨u, hperform, fun hchosen identity' final' hcapacity' => ?_⟩
  refine hsteady.text_ofSnippet htold hwu (fun i hi => hacyclic i ?_) ⟨hcu, hchosen⟩ identity'
    final' hcapacity'
  exact hi.lift id fun _ _ => hremains.holds ht.wellLinked

/-- The second tab stop is the primary one, as it has something in it; the first one repeats it. -/
def repeated : Tree := ofSnippet 0 .textMate "$1 $\x7b1:a\x7d" false

/-- After typing, the first tab stop has something in it too, and is the first choice when what is
written is read. The text is the same. -/
theorem typeText_text_repeated :
    (ofSource 0 .textMate "$1 $\x7b1:a\x7d").capacity < 2 ^ 32 ∧
      (∀ i, ¬ Relation.TransGen repeated.Holds i i) ∧ ⟨0, 3, 0⟩ ∈ repeated.leaders ∧
      repeated.isPlain ⟨0, 3, 0⟩ ∧
      ∃ u, (typeText ⟨0, 3, 0⟩ "x").perform repeated = (.ok (), u) ∧
        u.primary? (.ofNat 1) = some ⟨0, 3, 0⟩ ∧ u.firstChoice? (.ofNat 1) = some ⟨0, 1, 0⟩ ∧
        (ofSnippet 0 .textMate u.source true).text = "x x" := by
  have hcapacity : (ofSource 0 .textMate "$1 $\x7b1:a\x7d").capacity = 5 := by cbv
  have hstart : (repeated.holdings, repeated.leaders, repeated.isPlain ⟨0, 3, 0⟩) =
      ([], [⟨0, 3, 0⟩], true) := by cbv
  simp only [Prod.mk.injEq] at hstart
  obtain ⟨hholdings, hleaders, hplain⟩ := hstart
  have hacyclic := acyclic_of_holdings (t := repeated) (fun _ => 0) (by simp [hholdings])
  have hlt : (ofSource 0 .textMate "$1 $\x7b1:a\x7d").capacity < 2 ^ 32 := by
    rw [hcapacity]
    decide
  have hleader : (⟨0, 3, 0⟩ : Handle) ∈ repeated.leaders := by simp [hleaders]
  obtain ⟨u, hperform, hu⟩ := typeText_text_ofSnippet 0 "$1 $\x7b1:a\x7d" false hlt hacyclic hleader
    hplain (s := "x") (by decide)
  have htyped :
      let u := (typeText ⟨0, 3, 0⟩ "x").after repeated
      (u.text, u.placeholders, u.placeholders.filterMap u.index?, u.placeholdersOf (.ofNat 1),
        u.placeholders.map u.ancestors, u.firstChoice? (.ofNat 1), u.primary? (.ofNat 1),
        u.isPlain ⟨0, 3, 0⟩, (ofSource 0 .textMate u.source).capacity) =
      ("x x", [⟨0, 1, 0⟩, ⟨0, 3, 0⟩], [.ofNat 1, .ofNat 1], [⟨0, 1, 0⟩, ⟨0, 3, 0⟩],
        [[⟨0, 0, 0⟩], [⟨0, 0, 0⟩]], some ⟨0, 1, 0⟩, some ⟨0, 3, 0⟩, true, 6) := by cbv
  have hafter : (typeText ⟨0, 3, 0⟩ "x").after repeated = u := congrArg Prod.snd hperform
  simp only [hafter, Prod.mk.injEq] at htyped
  obtain ⟨htext, hplaceholders, hindexes, hone, habove, hfirst, hprimary, hplainu, hcapacity'⟩ :=
    htyped
  simp only [hplaceholders, List.map_cons, List.map_nil, List.cons.injEq, and_true] at habove
  refine ⟨hlt, hacyclic, hleader, hplain, u, hperform, hprimary, hfirst, ?_⟩
  rw [← htext]
  refine hu (rechoosable_of_indexes fun i hi _ => ?_) 0 true (by rw [hcapacity']; decide)
  -- Both tab stops are of index 1, and neither is inside of the other
  obtain rfl : i = .ofNat 1 := by simpa [hindexes] using hi
  refine ⟨⟨0, 3, 0⟩, hprimary, Or.inr ⟨hplainu, fun m hm x hx hmx => ?_⟩⟩
  rw [hone] at hm
  rw [hplaceholders] at hx
  rcases List.mem_pair.1 hm with rfl | rfl <;> rcases List.mem_pair.1 hx with rfl | rfl <;>
    simp [habove] at hmx

end TabStop.Tree
