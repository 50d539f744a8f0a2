import TabStop.Proofs.Canonical.Echoing
import TabStop.Proofs.Canonical.Persisting
import TabStop.Proofs.Repeat.Repeating

/-!
# Which tab stops are chosen again

It is not written which tab stops are primary ones. When a document comes back, they are chosen by
what has been written: by which tab stops have a transform, and which have something in them. A tab
stop that repeats another one has got something in it by that, so another one than before may be
chosen.
-/

namespace TabStop.Tree

variable {t u v : Tree} {m p q x y : Handle} {hs ms : List Handle} {i : TabIndex}
  {ps : List (Handle × Handle)}

/-! ## The choice among tab stops that are not marked -/

section Pick

variable {α β : Type} {P Q P' Q' : α → Bool} {as : List α}

/-- The first that is `P` and `Q`; or else the first that is `P`; or else the first. -/
def pick (P Q : α → Bool) (as : List α) : Option α :=
  ((as.filter P).find? Q) <|> (as.filter P).head? <|> as.head?

theorem pick_map (P Q : β → Bool) (f : α → β) (as : List α) :
    pick P Q (as.map f) = (pick (P ∘ f) (Q ∘ f) as).map f := by
  rw [pick, List.filter_map, List.find?_map, List.head?_map, List.head?_map, pick]
  cases (as.filter (P ∘ f)).find? (Q ∘ f) <;> cases (as.filter (P ∘ f)).head? <;> rfl

theorem pick_congr (hP : ∀ a ∈ as, P a = P' a) (hQ : ∀ a ∈ as, P a → Q a = Q' a) :
    pick P Q as = pick P' Q' as := by
  have hfind {bs : List α} (hbs : ∀ b ∈ bs, Q b = Q' b) : bs.find? Q = bs.find? Q' := by
    induction bs with
    | nil => rfl
    | cons b bs ih =>
      obtain ⟨hb, hbs⟩ := List.forall_mem_cons.1 hbs
      rw [List.find?_cons, List.find?_cons, hb, ih hbs]
  rw [pick, pick, ← List.filter_congr hP]
  congr 1
  exact hfind fun b hb => hQ b (List.mem_filter.1 hb).1 (List.mem_filter.1 hb).2

/-- One is picked. It is `P` if any is. -/
theorem pick_some (hne : as ≠ []) : ∃ a ∈ as, pick P Q as = some a ∧ ((∃ b ∈ as, P b) → P a) := by
  have hmem {a : α} (ha : a ∈ as.filter P) : a ∈ as ∧ ((∃ b ∈ as, P b) → P a) :=
    ⟨(List.mem_filter.1 ha).1, fun _ => (List.mem_filter.1 ha).2⟩
  unfold pick
  cases hfind : (as.filter P).find? Q with
  | some a => exact ⟨a, (hmem (List.mem_of_find?_eq_some hfind)).1, rfl,
      (hmem (List.mem_of_find?_eq_some hfind)).2⟩
  | none =>
    cases hfilter : as.filter P with
    | cons a rest => exact ⟨a, (hmem (by simp [hfilter])).1, rfl, (hmem (by simp [hfilter])).2⟩
    | nil =>
      obtain ⟨a, rest, rfl⟩ := List.exists_cons_of_ne_nil hne
      refine ⟨a, by simp, rfl, fun ⟨b, hb, hPb⟩ => ?_⟩
      exact absurd (List.mem_filter.2 ⟨hb, hPb⟩) (by simp [hfilter])

end Pick

/-- Whether a node is a tab stop without a transform. -/
def isPlain (t : Tree) (h : Handle) : Bool := (t.placeholder? h).any (·.transform.isNone)

/-- The tab stop of an index that becomes the primary one if none is marked. -/
def firstChoice? (t : Tree) (i : TabIndex) : Option Handle :=
  pick t.isPlain (fun h => !(t.children h).isEmpty) (t.placeholdersOf i)

theorem exists_firstChoice? (hne : t.placeholdersOf i ≠ []) : ∃ x, t.firstChoice? i = some x := by
  obtain ⟨x, -, hx, -⟩ := pick_some (P := t.isPlain) (Q := fun h => !(t.children h).isEmpty) hne
  exact ⟨x, hx⟩

/-- The first choice is a tab stop of the index, without a transform if there is such a one. -/
theorem firstChoice?_eq_some (hx : t.firstChoice? i = some x) : x ∈ t.placeholdersOf i ∧
    ((∃ y ∈ t.placeholdersOf i, t.isPlain y) → t.isPlain x) := by
  by_cases hne : t.placeholdersOf i = []
  · simp [firstChoice?, pick, hne] at hx
  · obtain ⟨a, ha, heq, hplain⟩ := pick_some (P := t.isPlain)
      (Q := fun h => !(t.children h).isEmpty) hne
    obtain rfl := Option.some.inj (heq.symm.trans hx)
    exact ⟨ha, hplain⟩

theorem choosePrimary_unmarked (hnone : ∀ h ∈ hs, t.isPrimary h = false) :
    t.choosePrimary hs = pick t.isPlain (fun h => !(t.children h).isEmpty) hs := by
  have hnil : hs.filter t.isPrimary = [] := by
    rw [List.filter_eq_nil_iff]
    intro h hh
    simp [hnone h hh]
  rw [choosePrimary, hnil]
  rfl

theorem InUse.transform?_eq (hx : t.InUse x) (hsome : (t.placeholder? x).isSome) :
    (t.slotOf x).marker.transform? = (t.placeholder? x).bind (·.transform) := by
  obtain ⟨k, hk⟩ := Option.isSome_iff_exists.1 hsome
  rw [hx.marker_eq_placeholder hk, hk]
  rfl

theorem bind_transform_of_isPlain (hplain : t.isPlain x) :
    (t.placeholder? x).bind (·.transform) = none := by
  rw [isPlain, Option.any_eq_true] at hplain
  obtain ⟨k, hk, hnone⟩ := hplain
  rw [hk]
  exact Option.isNone_iff_eq_none.1 hnone

theorem InUse.transform?_of_isPlain (hx : t.InUse x) (hplain : t.isPlain x) :
    (t.slotOf x).marker.transform? = none := by
  rw [hx.transform?_eq, bind_transform_of_isPlain hplain]
  cases hk : t.placeholder? x with
  | none => simp [isPlain, hk] at hplain
  | some k => rfl

namespace Echoes

variable (he : Echoes t v ps) (hl : t.WellLinked) (hv : v.WellLinked)

include he hl hv

theorem isPlain_eq (hxy : (x, y) ∈ ps) : v.isPlain y = t.isPlain x := by
  have hany (o : Option Placeholder) :
      o.any (·.transform.isNone) = (o.map (·.transform.isNone)).getD false := by cases o <;> rfl
  rw [isPlain, isPlain, hany, hany, he.placeholder?_map hl hv (fun _ => rfl) hxy]

theorem isEmpty_eq (hxy : (x, y) ∈ ps) (hplain : t.isPlain x) :
    (v.children y).isEmpty = (t.children x).isEmpty := by
  have hxu := hl.inUse_of_mem_nodes (he.mem_left hxy)
  rw [WellLinked.children_eq hxu,
    WellLinked.children_eq (hv.inUse_of_mem_nodes (he.mem_right hxy)), Bool.eq_iff_iff,
    List.isEmpty_iff, List.isEmpty_iff, he.nil_iff hxy (hxu.transform?_of_isPlain hplain)]

/-- What is chosen of an index is a pair. -/
theorem firstChoice? (i : TabIndex) : ∃ o : Option (Handle × Handle), (∀ p ∈ o, p ∈ ps) ∧
    t.firstChoice? i = o.map Prod.fst ∧ v.firstChoice? i = o.map Prod.snd := by
  have hsub : pairsOf t ps i ⊆ ps := List.filter_subset_self ..
  refine ⟨pick (t.isPlain ∘ Prod.fst) ((fun h => !(t.children h).isEmpty) ∘ Prod.fst)
    (pairsOf t ps i), fun p hp => ?_, ?_, ?_⟩
  · have hne : pairsOf t ps i ≠ [] := by
      intro hnil
      simp [hnil, pick] at hp
    obtain ⟨a, ha, heq, -⟩ := pick_some (P := t.isPlain ∘ Prod.fst)
      (Q := (fun h => !(t.children h).isEmpty) ∘ Prod.fst) hne
    rw [heq] at hp
    exact Option.some.inj hp ▸ hsub ha
  · rw [Tree.firstChoice?, ← he.map_fst_pairsOf hl, pick_map]
  · rw [Tree.firstChoice?, ← he.map_snd_pairsOf hl hv, pick_map]
    refine congrArg (Option.map Prod.snd) (pick_congr (fun p hp => ?_) fun p hp hplain => ?_).symm
    · exact (he.isPlain_eq hl hv (hsub hp)).symm
    · exact congrArg (!·) (he.isEmpty_eq hl hv (hsub hp) hplain).symm

end Echoes

/-! ## The document that comes back -/

theorem Remarked.unmarked_eq {m m' : Marker} (hm : Remarked m m') : m'.unmarked = m.unmarked := by
  cases hm <;> rfl

theorem unmarked_assignPrimaries (t : Tree) (x : Handle) :
    (t.assignPrimaries.slotOf x).marker.unmarked = (t.slotOf x).marker.unmarked :=
  (remarked_assignPrimaries t x).unmarked_eq

/-- Of an index without a marked tab stop, the first choice is marked. -/
theorem isPrimary_assignPrimaries_iff (hx : x ∈ t.placeholdersOf i) (hfinal : i.isFinal = false)
    (hnone : ∀ h ∈ t.placeholdersOf i, t.isPrimary h = false) :
    t.assignPrimaries.isPrimary x ↔ t.firstChoice? i = some x := by
  obtain ⟨hmem, hindex⟩ := List.mem_filter.1 hx
  obtain ⟨k, hk⟩ := exists_placeholder?_of_mem hmem
  rw [isPrimary, placeholder?_assignPrimaries, if_pos hmem, hk, Option.map_some, Option.any_some,
    marked, becomesPrimary, LawfulBEq.eq_of_beq hindex, Option.any_some, hfinal, Bool.false_or,
    choosePrimary_unmarked hnone, beq_iff_eq, firstChoice?]

/-- A document and the one that comes back, in which primary tab stops have been chosen: of each
index but the final one, that which is the first choice. -/
structure Rechosen (t v : Tree) (ps : List (Handle × Handle)) : Prop extends Echoes t v ps where
  chosen {x y : Handle} {i : TabIndex} : (x, y) ∈ ps → t.index? x = some i → i.isFinal = false →
    (v.isPrimary y ↔ t.firstChoice? i = some x)

theorem Writable.rechosen (hw : t.Writable) (hl : t.WellLinked) (identity : Nat) :
    ∃ ps, Rechosen t (ofSource identity .textMate t.source).assignPrimaries ps := by
  obtain ⟨-, ps, hreturns, hroot⟩ := hw.returns hl identity
  have hu := (grown_ofSource identity .textMate t.source).1
  have hnone {i : TabIndex} {h : Handle}
      (hh : h ∈ (ofSource identity .textMate t.source).placeholdersOf i) :=
    isPrimary_ofSource identity .textMate t.source ((placeholdersOf_sublist _ i).subset hh)
  revert hreturns hroot hu hnone
  generalize ofSource identity .textMate t.source = u
  intro hreturns hroot hu hnone
  have he : Echoes t u ps := hreturns.echoes hroot hw.root (.refl u) fun _ => rfl
  refine ⟨ps, hreturns.echoes hroot hw.root (sameLinks_assignPrimaries u)
    (unmarked_assignPrimaries u), fun {x y i} hxy hi hfinal => ?_⟩
  have hyi : y ∈ u.placeholdersOf i := by
    rw [he.mem_placeholdersOf_iff hl hu hxy, hl.placeholdersOf_eq_nodes he.marker_root]
    exact List.mem_filter.2 ⟨he.mem_left hxy, by simp [hi]⟩
  rw [isPrimary_assignPrimaries_iff hyi hfinal fun h => hnone]
  -- The first choices are a pair
  obtain ⟨o, hmem, hleft, hright⟩ := he.firstChoice? hl hu i
  rw [hleft, hright, Option.map_eq_some_iff, Option.map_eq_some_iff]
  constructor
  · rintro ⟨⟨a, _⟩, rfl, rfl⟩
    exact ⟨_, rfl, he.left_unique hu (hmem _ rfl) hxy⟩
  · rintro ⟨⟨_, b⟩, rfl, rfl⟩
    exact ⟨_, rfl, he.right_unique hl (hmem _ rfl) hxy⟩

end TabStop.Tree
