import TabStop.Proofs.Links.Ownership
import TabStop.Proofs.Primary.Choice

/-!
# Which tab stops are lost

A tab stop that repeats a primary one is overwritten, and the tab stops inside it are lost. Which
ones these are can be told before any text has been repeated. It hangs on the order of the tab stops
and on which of them are inside each other, but not on any text.
-/

namespace TabStop.Tree

variable {t : Tree} {c m p x : Handle} {ms ns hs ps : List Handle} {i : TabIndex}

/-! ## The tab stops that are overwritten -/

/-- Whether one of some nodes is above a node. -/
def isBelow (t : Tree) (ms : List Handle) (x : Handle) : Bool := (t.ancestors x).any ms.contains

/-- Adds a tab stop to those that are overwritten as it repeats the primary one `p`. It does not
repeat `p` if it is lost by then, or has `p` inside. -/
def overwriteBy (t : Tree) (p : Handle) (ms : List Handle) (m : Handle) : List Handle :=
  if t.isBelow ms m || t.isAncestorOrSelf m p then ms else m :: ms

/-- Adds the tab stops that are overwritten as they repeat the primary one `p`, unless it is lost by
then. -/
def overwrittenBy (t : Tree) (ms : List Handle) (p : Handle) : List Handle :=
  match t.index? p with
  | some i =>
    if i.isFinal || t.isBelow ms p then ms else (t.placeholdersOf i).foldl (t.overwriteBy p) ms
  | none => ms

/-- The tab stops that are overwritten when all primary ones are repeated, the last one first. -/
def overwritten (t : Tree) : List Handle := t.primaries.foldl t.overwrittenBy []

theorem isBelow_mono (hsub : ms ⊆ ns) (hx : t.isBelow ms x) : t.isBelow ns x := by
  obtain ⟨a, ha, hmem⟩ := List.any_eq_true.1 hx
  exact List.any_eq_true.2 ⟨a, ha, by simpa using hsub (by simpa using hmem)⟩

theorem not_isBelow_of_subset (hsub : ms ⊆ ns) (hx : t.isBelow ns x = false) :
    t.isBelow ms x = false := by
  apply Bool.eq_false_iff.2
  intro hbelow
  simp [isBelow_mono hsub hbelow] at hx

theorem isBelow_cons (t : Tree) (m : Handle) (ms : List Handle) (x : Handle) :
    t.isBelow (m :: ms) x = ((t.ancestors x).contains m || t.isBelow ms x) := by
  unfold isBelow
  induction t.ancestors x with
  | nil => rfl
  | cons a as ih =>
    rw [List.any_cons, ih, List.any_cons, List.contains_cons, List.contains_cons,
      Bool.beq_comm (a := m)]
    cases a == m <;> cases ms.contains a <;> cases as.contains m <;> rfl

/-- A node is below those that its parent is below of, and below its parent. -/
theorem isBelow_child (hl : t.WellLinked) (hp : t.InUse p) (hc : c ∈ (t.slotOf p).children) :
    t.isBelow ms c = (ms.contains p || t.isBelow ms p) := by
  rw [isBelow, Linked.ancestors_child hl hp hc, List.any_cons]
  rfl

theorem isBelow_of_mem_walk_child (hl : t.WellLinked) (hp : t.InUse p) (hms : p ∈ ms)
    (hc : c ∈ (t.slotOf p).children) (hx : x ∈ t.walk c) : t.isBelow ms x := by
  obtain ⟨hcu, -⟩ := Linked.child hl hp hc
  obtain ⟨hxu, habove⟩ := (hl.mem_walk_iff hcu).1 hx
  refine List.any_eq_true.2 ⟨p, ?_, by simpa using hms⟩
  -- `c` is in the lineage of `x`, and `p` comes right behind it
  obtain ⟨below, heq⟩ := Linked.above_split hl hxu habove
  rw [Linked.ancestors_child hl hp hc] at heq
  cases below with
  | nil =>
    rw [(List.cons_eq_cons.1 heq).2]
    exact List.mem_cons_self ..
  | cons y below =>
    rw [(List.cons_eq_cons.1 heq).2]
    simp

theorem foldl_overwriteBy (t : Tree) (p : Handle) (hs ms : List Handle) :
    ∃ new, hs.foldl (t.overwriteBy p) ms = new ++ ms ∧ new.Sublist hs.reverse := by
  induction hs generalizing ms with
  | nil => exact ⟨[], rfl, .slnil⟩
  | cons m hs ih =>
    rw [List.foldl_cons, overwriteBy]
    split
    · -- What is added later stands in front, so the order is turned round
      obtain ⟨new, heq, hsub⟩ := ih ms
      refine ⟨new, heq, hsub.trans ?_⟩
      rw [List.reverse_cons]
      exact List.sublist_append_left _ _
    · obtain ⟨new, heq, hsub⟩ := ih (m :: ms)
      refine ⟨new ++ [m], by rw [heq]; simp, ?_⟩
      rw [List.reverse_cons]
      exact hsub.append (.refl _)

theorem suffix_foldl_overwriteBy (t : Tree) (p : Handle) (hs ms : List Handle) :
    ms <:+ hs.foldl (t.overwriteBy p) ms := by
  obtain ⟨new, heq, -⟩ := foldl_overwriteBy t p hs ms
  exact ⟨new, heq.symm⟩

theorem suffix_overwrittenBy (t : Tree) (ms : List Handle) (p : Handle) :
    ms <:+ t.overwrittenBy ms p := by
  unfold overwrittenBy
  split
  · split
    · exact List.suffix_refl ms
    · exact suffix_foldl_overwriteBy t p _ ms
  · exact List.suffix_refl ms

theorem suffix_foldl_overwrittenBy (t : Tree) (ps ms : List Handle) :
    ms <:+ ps.foldl t.overwrittenBy ms := by
  induction ps generalizing ms with
  | nil => exact List.suffix_refl ms
  | cons p ps ih => exact (suffix_overwrittenBy t ms p).trans (ih _)

/-- A tab stop that could repeat `p` in the end could have done so when it came to it. -/
theorem mem_foldl_overwriteBy (hm : m ∈ hs)
    (hbelow : t.isBelow (hs.foldl (t.overwriteBy p) ms) m = false)
    (habove : t.isAncestorOrSelf m p = false) : m ∈ hs.foldl (t.overwriteBy p) ms := by
  induction hs generalizing ms with
  | nil => simp at hm
  | cons n hs ih =>
    rcases List.mem_cons.1 hm with rfl | hm
    · -- What is overwritten only grows, so `m` was not lost yet
      have hnow := not_isBelow_of_subset (suffix_foldl_overwriteBy t p (m :: hs) ms).subset hbelow
      apply (suffix_foldl_overwriteBy t p hs _).subset
      simp [overwriteBy, hnow, habove]
    · exact ih hm hbelow

/-- Every tab stop that could repeat a primary one in the end is overwritten. -/
theorem mem_foldl_overwrittenBy (hp : p ∈ ps) (hi : t.index? p = some i)
    (hfinal : i.isFinal = false)
    (hpbelow : t.isBelow (ps.foldl t.overwrittenBy ms) p = false) (hm : m ∈ t.placeholdersOf i)
    (hbelow : t.isBelow (ps.foldl t.overwrittenBy ms) m = false)
    (habove : t.isAncestorOrSelf m p = false) : m ∈ ps.foldl t.overwrittenBy ms := by
  induction ps generalizing ms with
  | nil => simp at hp
  | cons q ps ih =>
    rcases List.mem_cons.1 hp with rfl | hp
    · -- Neither was `p` lost when its turn came, so its index was repeated
      have hnow := not_isBelow_of_subset (suffix_foldl_overwrittenBy t (p :: ps) ms).subset hpbelow
      have hlater := suffix_foldl_overwrittenBy t ps (t.overwrittenBy ms p)
      have heq : t.overwrittenBy ms p = (t.placeholdersOf i).foldl (t.overwriteBy p) ms := by
        simp [overwrittenBy, hi, hfinal, hnow]
      apply hlater.subset
      rw [heq]
      refine mem_foldl_overwriteBy hm ?_ habove
      rw [← heq]
      exact not_isBelow_of_subset hlater.subset hbelow
    · exact ih hp hpbelow hbelow

/-- No tab stop is overwritten twice if no two primary ones have the same index. -/
theorem nodup_foldl_overwrittenBy (hplaceholders : t.placeholders.Nodup)
    (hdistinct : ps.Pairwise fun p q => ∀ i, t.index? p = some i → i.isFinal = false →
      t.index? q ≠ some i)
    (hms : ms.Nodup) (hsub : ms ⊆ t.placeholders)
    (hnew : ∀ m ∈ ms, ∀ p ∈ ps, ∀ i, t.index? p = some i → i.isFinal = false →
      t.index? m ≠ some i) :
    (ps.foldl t.overwrittenBy ms).Nodup ∧ ps.foldl t.overwrittenBy ms ⊆ t.placeholders := by
  induction ps generalizing ms with
  | nil => exact ⟨hms, hsub⟩
  | cons p ps ih =>
    obtain ⟨hp, hdistinct⟩ := List.pairwise_cons.1 hdistinct
    have hskip : ∀ m ∈ ms, ∀ q ∈ ps, ∀ i, t.index? q = some i → i.isFinal = false →
        t.index? m ≠ some i := fun m hm q hq => hnew m hm q (List.mem_cons_of_mem _ hq)
    rw [List.foldl_cons, overwrittenBy]
    split
    · next i hi =>
      split
      · exact ih hdistinct hms hsub hskip
      · next hcond =>
        have hfinal : i.isFinal = false := by
          cases hf : i.isFinal
          · rfl
          · simp [hf] at hcond
        obtain ⟨new, heq, hnewsub⟩ := foldl_overwriteBy t p (t.placeholdersOf i) ms
        -- What is new has the index of `p`, and what was there before has not
        have hmem : ∀ m ∈ new, m ∈ t.placeholders ∧ t.index? m = some i := by
          intro m hm
          have := List.mem_reverse.1 (hnewsub.subset hm)
          exact ⟨(List.mem_filter.1 this).1, by simpa using (List.mem_filter.1 this).2⟩
        have hnodup : new.Nodup := by
          apply List.Nodup.sublist hnewsub
          rw [(List.reverse_perm _).nodup_iff]
          exact hplaceholders.sublist (placeholdersOf_sublist t i)
        rw [heq]
        apply ih hdistinct
        · refine List.nodup_append.2 ⟨hnodup, hms, ?_⟩
          rintro a ha _ hb rfl
          exact hnew a hb p (List.mem_cons_self ..) i hi hfinal (hmem a ha).2
        · intro a ha
          rcases List.mem_append.1 ha with ha | ha
          · exact (hmem a ha).1
          · exact hsub ha
        · intro a ha q hq j hj hjfinal haj
          rcases List.mem_append.1 ha with ha | ha
          · -- Then `p` and `q` would have the same index
            obtain rfl : i = j := Option.some.inj ((hmem a ha).2.symm.trans haj)
            exact hp q hq i hi hfinal hj
          · exact hskip a ha q hq j hj hjfinal haj
    · exact ih hdistinct hms hsub hskip

end TabStop.Tree
