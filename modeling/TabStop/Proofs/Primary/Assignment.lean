import TabStop.Proofs.Canonical.Rechoosing

/-!
# The choice of the primary tab stops

Each index gets one primary tab stop: the one that is marked already if there is just one, or else
the first one that is preferred over the others. Of a document nothing is changed but these marks,
and since a tab stop that is marked alone stays the primary one, to choose for a second time changes
nothing at all.
-/

namespace TabStop

/-- A slot without the mark of a primary tab stop. -/
def Slot.unmarked (s : Slot) : Slot := { s with marker := s.marker.unmarked }

namespace Tree

variable {t u : Tree} {h p q x : Handle} {hs : List Handle} {i : TabIndex} {P : Handle → Prop}

/-! ## The tab stop that is preferred -/

/-- The first one of a list that is `P`. -/
def IsFirst (P : Handle → Prop) (hs : List Handle) (p : Handle) : Prop :=
  ∃ before behind, hs = before ++ p :: behind ∧ P p ∧ ∀ x ∈ before, ¬P x

/-- One of the tab stops of an index is preferred over the others: the first without a transform that
has something in it; if there is none, the first without a transform; and if there is none of these
either, the first. -/
inductive Preferred (t : Tree) (hs : List Handle) (p : Handle) : Prop
  | filled (hfirst : IsFirst (fun x => t.isPlain x ∧ t.children x ≠ []) hs p)
  | plain (hempty : ∀ x ∈ hs, t.isPlain x → t.children x = [])
      (hfirst : IsFirst (fun x => t.isPlain x) hs p)
  | transformed (hnone : ∀ x ∈ hs, ¬t.isPlain x) (hfirst : hs.head? = some p)

theorem isFirst_of_find? {R : Handle → Bool} (hfind : hs.find? R = some p)
    (hR : ∀ x, R x ↔ P x) : IsFirst P hs p := by
  obtain ⟨hp, before, behind, heq, hbefore⟩ := List.find?_eq_some_iff_append.1 hfind
  refine ⟨before, behind, heq, (hR p).1 hp, fun x hx => ?_⟩
  rw [← hR]
  simpa using hbefore x hx

theorem preferred_of_pick
    (hpick : pick t.isPlain (fun h => !(t.children h).isEmpty) hs = some p) : t.Preferred hs p := by
  rw [pick, List.find?_filter, List.head?_filter] at hpick
  -- The cases are those of the preference, one after the other
  cases hfilled : hs.find? fun x => decide (t.isPlain x ∧ (!(t.children x).isEmpty) = true) with
  | some q =>
    rw [hfilled] at hpick
    obtain rfl : q = p := Option.some.inj hpick
    exact .filled (isFirst_of_find? hfilled fun x => by simp)
  | none =>
    have hempty : ∀ x ∈ hs, t.isPlain x → t.children x = [] := by
      simpa using List.find?_eq_none.1 hfilled
    rw [hfilled] at hpick
    cases hplain : hs.find? t.isPlain with
    | some q =>
      rw [hplain] at hpick
      obtain rfl : q = p := Option.some.inj hpick
      exact .plain hempty (isFirst_of_find? hplain fun x => Iff.rfl)
    | none =>
      rw [hplain] at hpick
      exact .transformed (List.find?_eq_none.1 hplain) hpick

/-! ## The tab stop that is chosen -/

/-- Of an index one tab stop is marked, and no other one. -/
def SolePrimary (t : Tree) (i : TabIndex) (p : Handle) : Prop :=
  (t.placeholdersOf i).filter t.isPrimary = [p]

theorem SolePrimary.mem (hp : t.SolePrimary i p) : p ∈ t.placeholdersOf i ∧ t.isPrimary p :=
  List.mem_filter.1 (hp ▸ List.mem_singleton_self p)

theorem SolePrimary.isPrimary_eq (hp : t.SolePrimary i p) (hx : x ∈ t.placeholdersOf i) :
    t.isPrimary x = (x == p) := by
  have hmem : x ∈ (t.placeholdersOf i).filter t.isPrimary ↔ x = p := by
    rw [hp, List.mem_singleton]
  rw [List.mem_filter, and_iff_right hx] at hmem
  rw [Bool.eq_iff_iff, hmem, beq_iff_eq]

/-- A tab stop that is the only marked one is chosen. -/
theorem SolePrimary.choosePrimary_eq (hp : t.SolePrimary i p) :
    t.choosePrimary (t.placeholdersOf i) = some p := by
  rw [choosePrimary, show (t.placeholdersOf i).filter t.isPrimary = [p] from hp]

/-- Where none is marked or more than one, the marks do not count. -/
theorem choosePrimary_eq_pick (hnot : ∀ p, ¬t.SolePrimary i p) :
    t.choosePrimary (t.placeholdersOf i) =
      pick t.isPlain (fun h => !(t.children h).isEmpty) (t.placeholdersOf i) := by
  unfold choosePrimary
  split
  · next p hp => exact absurd hp (hnot p)
  · rfl

theorem placeholder?_isSome_of_mem (hx : x ∈ t.placeholdersOf i) :
    x ∈ t.placeholders ∧ t.index? x = some i ∧ ∃ k, t.placeholder? x = some k := by
  obtain ⟨hmem, hindex⟩ := List.mem_filter.1 hx
  exact ⟨hmem, by simpa using hindex, exists_placeholder?_of_mem hmem⟩

/-- What is chosen is marked afterwards, and nothing else of its index. -/
theorem WellLinked.solePrimary_assignPrimaries (hl : t.WellLinked) (hi : i.isFinal = false)
    (hchosen : t.choosePrimary (t.placeholdersOf i) = some p) (hp : p ∈ t.placeholdersOf i) :
    t.assignPrimaries.SolePrimary i p := by
  have hmarked : ∀ x ∈ t.placeholdersOf i, t.assignPrimaries.isPrimary x = (x == p) := by
    intro x hx
    obtain ⟨hmem, hindex, k, hk⟩ := placeholder?_isSome_of_mem hx
    rw [isPrimary, placeholder?_assignPrimaries, if_pos hmem, hk]
    simp [marked, becomesPrimary, hindex, hi, hchosen, Bool.beq_comm (a := p)]
  rw [SolePrimary, placeholdersOf_assignPrimaries, List.filter_congr hmarked, List.filter_beq,
    (hl.nodup_placeholdersOf i).count, if_pos hp]
  rfl

/-! ## What is not changed -/

/-- A tree without the marks of primary tab stops. -/
def unmarked (t : Tree) : Tree := { t with slots := t.slots.map Slot.unmarked }

theorem SameLinks.unmarked_eq (hs : SameLinks t u) (hdialect : u.dialect = t.dialect)
    (hmarkers : ∀ x, (u.slotOf x).marker.unmarked = (t.slotOf x).marker.unmarked) :
    u.unmarked = t.unmarked := by
  have hslots : u.slots.map Slot.unmarked = t.slots.map Slot.unmarked := by
    apply Array.ext (by simp [hs.size])
    intro n hu ht
    rw [Array.size_map] at hu ht
    -- The slot is that of a handle with its number
    have hslot : ((u.slotOf ⟨0, n, 0⟩).unmarked) = (t.slotOf ⟨0, n, 0⟩).unmarked := by
      simp only [Slot.unmarked, hmarkers, hs.parent, hs.children, hs.generation]
    simpa [slotOf, hu, ht] using hslot
  simp only [unmarked, hs.identity, hdialect, hs.free, hslots]

theorem unmarked_assignPrimaries_eq (t : Tree) : t.assignPrimaries.unmarked = t.unmarked :=
  (sameLinks_assignPrimaries t).unmarked_eq (dialect_assignPrimaries t) (unmarked_assignPrimaries t)

/-- A node that is no tab stop of the document stays what it is. -/
theorem marker?_assignPrimaries (hx : x ∉ t.placeholders) :
    t.assignPrimaries.marker? x = t.marker? x := by
  have hplaceholder := placeholder?_assignPrimaries t x
  rw [if_neg hx, placeholder?, placeholder?] at hplaceholder
  have hremarked := remarked_assignPrimaries t x
  rw [marker?, marker?, (sameLinks_assignPrimaries t).owns_eq] at hplaceholder ⊢
  split
  · next ho =>
    rw [if_pos ho, if_pos ho] at hplaceholder
    revert hplaceholder hremarked
    generalize (t.slotOf x).marker = m, (t.assignPrimaries.slotOf x).marker = m'
    rintro hplaceholder (_ | ⟨p, b⟩)
    · rfl
    · obtain hp : marked b p = p := Option.some.inj hplaceholder
      rw [hp]
  · rfl

/-! ## To choose again -/

/-- To mark a tab stop as it is marked changes nothing. -/
theorem markPrimary_isPrimary (t : Tree) (h : Handle) : t.markPrimary h (t.isPrimary h) = t := by
  rw [markPrimary]
  split
  · next k hk =>
    have hmark : { k with primary := t.isPrimary h } = k := by
      rw [isPrimary, hk]
      rfl
    rw [hmark]
    rw [placeholder?, marker?] at hk
    split at hk
    · next ho =>
      have hmarker : (t.slotOf h).marker = .placeholder k := by
        cases hm : (t.slotOf h).marker <;> simp_all [Marker.placeholder?]
      rw [setMarker, if_pos ho, modifySlot_self]
      rw [← hmarker]
    · simp at hk
  · rfl

/-- Where all tab stops are marked as they are to be marked, choosing changes nothing. -/
theorem assignPrimaries_eq_self (hmarks : ∀ x ∈ t.placeholders, t.becomesPrimary x = t.isPrimary x) :
    t.assignPrimaries = t := by
  refine List.foldlRecOn t.placeholders _ (motive := fun u => u = t) rfl fun u hu h hh => ?_
  subst hu
  obtain ⟨i, hi⟩ := exists_index?_of_mem hh
  have hmark := hmarks h hh
  rw [becomesPrimary, hi, Option.any_some] at hmark
  simp only [hi, hmark, markPrimary_isPrimary]

/-- Where each index has one primary tab stop and the final ones are all primary, each tab stop is
marked as it is to be. -/
theorem becomesPrimary_eq (hsole : ∀ i, i.isFinal = false → t.placeholdersOf i ≠ [] →
    ∃ p, t.SolePrimary i p) (hfinal : ∀ x ∈ t.placeholders, t.isFinal x → t.isPrimary x)
    (hx : x ∈ t.placeholders) : t.becomesPrimary x = t.isPrimary x := by
  obtain ⟨i, hi⟩ := exists_index?_of_mem hx
  rw [becomesPrimary, hi, Option.any_some]
  cases hfin : i.isFinal with
  | true => rw [hfinal x hx (by simp [isFinal, hi, hfin]), Bool.true_or]
  | false =>
    have hmem : x ∈ t.placeholdersOf i := List.mem_filter.2 ⟨hx, by simp [hi]⟩
    obtain ⟨p, hp⟩ := hsole i hfin (List.ne_nil_of_mem hmem)
    rw [hp.choosePrimary_eq, hp.isPrimary_eq hmem, Bool.false_or, Bool.eq_iff_iff, beq_iff_eq,
      beq_iff_eq, Option.some_inj]
    exact eq_comm

/-! ## The whole choice -/

/-- What choosing the primary tab stops makes of a document. -/
structure Assigned (t u : Tree) : Prop where
  /-- Each index has one primary tab stop and no other one. -/
  sole : ∀ i, i.isFinal = false → u.placeholdersOf i ≠ [] → ∃ p, u.SolePrimary i p
  final : ∀ x ∈ u.placeholders, u.isFinal x → u.isPrimary x
  /-- A tab stop that was the only one to be marked is the primary one. -/
  kept : ∀ i p, i.isFinal = false → t.SolePrimary i p → u.SolePrimary i p
  /-- Where none was marked or more than one, the one that is preferred is the primary one. -/
  preferred : ∀ i p, i.isFinal = false → (∀ q, ¬t.SolePrimary i q) → u.SolePrimary i p →
    t.Preferred (t.placeholdersOf i) p
  /-- Nothing is changed but marks, and these only of tab stops of the document. -/
  unmarked : u.unmarked = t.unmarked
  elsewhere : ∀ x ∉ t.placeholders, u.marker? x = t.marker? x
  again : u.assignPrimaries = u

theorem final_assignPrimaries (hx : x ∈ t.placeholders) (hfinal : t.isFinal x) :
    t.assignPrimaries.isPrimary x := by
  obtain ⟨k, hk⟩ := exists_placeholder?_of_mem hx
  have hi : t.index? x = some k.index := by rw [index?, hk, Option.map_some]
  rw [isFinal, hi, Option.any_some] at hfinal
  rw [isPrimary, placeholder?_assignPrimaries, if_pos hx, hk, Option.map_some, Option.any_some, marked,
    becomesPrimary, hi, Option.any_some, hfinal, Bool.true_or]

/-- In a sound tree each index gets one primary tab stop, and all final tab stops are primary. A tab
stop that is marked alone stays the primary one, else it is the one that is preferred. Nothing is
changed but the marks, and nothing at all for a second time. -/
theorem assignPrimaries_assigned (hl : t.WellLinked) : Assigned t t.assignPrimaries := by
  have hsole : ∀ i, i.isFinal = false → t.assignPrimaries.placeholdersOf i ≠ [] →
      ∃ p, t.assignPrimaries.SolePrimary i p := by
    intro i hi hne
    rw [placeholdersOf_assignPrimaries] at hne
    exact hl.primaries_assigned hi hne
  have hfinal : ∀ x ∈ t.assignPrimaries.placeholders, t.assignPrimaries.isFinal x →
      t.assignPrimaries.isPrimary x := by
    intro x hx hfin
    rw [placeholders_assignPrimaries] at hx
    rw [isFinal, index?_assignPrimaries] at hfin
    exact final_assignPrimaries hx hfin
  constructor
  case sole => exact hsole
  case final => exact hfinal
  case kept =>
    intro i p hi hp
    exact hl.solePrimary_assignPrimaries hi hp.choosePrimary_eq hp.mem.1
  case preferred =>
    intro i p hi hnot hp
    -- The one that is picked is the one that is marked
    have hmem := placeholdersOf_assignPrimaries t i ▸ hp.mem.1
    obtain ⟨q, hq, hchosen⟩ := choosePrimary_mem (t := t) (List.ne_nil_of_mem hmem)
    have hqp := (hl.solePrimary_assignPrimaries hi hchosen hq).symm.trans hp
    obtain rfl : q = p := by simpa using hqp
    rw [choosePrimary_eq_pick hnot] at hchosen
    exact preferred_of_pick hchosen
  case unmarked => exact unmarked_assignPrimaries_eq t
  case elsewhere => exact fun x hx => marker?_assignPrimaries hx
  case again => exact assignPrimaries_eq_self fun x hx => becomesPrimary_eq hsole hfinal hx

/-- Of the index 1 no tab stop is marked and the first one has a transform, of the index 2 just one is
marked, and of the final ones none. -/
def partlyMarked : Tree :=
  ((ofSource 0 .textMate "$1$1$\x7b1:x\x7d$2$\x7b2:y\x7d$0").setMarker ⟨0, 1, 0⟩
    (.placeholder { index := .ofNat 1, transform := some ⟨"c", {}, [],
      (Regex.compile? ({} : TransformFlags).forPattern "c").get (by cbv), by simp⟩ })).markPrimary
    ⟨0, 5, 0⟩ true

/-- The third tab stop of the index 1 has something in it and no transform. The first one of the index
2 is marked already, so it stays the primary one, though it is empty. -/
theorem assignPrimaries_assigned_partlyMarked :
    partlyMarked.WellLinked ∧ Assigned partlyMarked partlyMarked.assignPrimaries ∧
      partlyMarked.placeholdersOf (.ofNat 1) = [⟨0, 1, 0⟩, ⟨0, 2, 0⟩, ⟨0, 3, 0⟩] ∧
      partlyMarked.assignPrimaries.SolePrimary (.ofNat 1) ⟨0, 3, 0⟩ ∧
      partlyMarked.placeholdersOf (.ofNat 2) = [⟨0, 5, 0⟩, ⟨0, 6, 0⟩] ∧
      partlyMarked.assignPrimaries.SolePrimary (.ofNat 2) ⟨0, 5, 0⟩ := by
  have hl : partlyMarked.WellLinked :=
    ((sameLinks_setMarker _ _ _).trans (sameLinks_markPrimary _ _ _)).wellLinked
      (grown_ofSource ..).1
  have ha := assignPrimaries_assigned hl
  have hmarked : partlyMarked.SolePrimary (.ofNat 2) ⟨0, 5, 0⟩ := by
    unfold SolePrimary
    cbv
  have hpreferred : partlyMarked.assignPrimaries.SolePrimary (.ofNat 1) ⟨0, 3, 0⟩ := by
    unfold SolePrimary
    cbv
  exact ⟨hl, ha, by cbv, hpreferred, by cbv, ha.kept _ _ rfl hmarked⟩

end Tree

end TabStop
