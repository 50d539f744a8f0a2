import TabStop.Proofs.Repeat.Clearing
import TabStop.Tree.Repeat

/-!
# What repeating leaves of a tree

The first pass overwrites the tab stops that are told to be overwritten, one after the other, and no
others. What later passes overwrite has been overwritten before.
-/

namespace TabStop.Tree

variable {t u : Tree} {h m p x : Handle} {ms ns hs ps : List Handle} {i : TabIndex} {s : String}

/-! ## One index -/

theorem repeatAt_snd (p : Handle) (s : String) (st : Bool × Tree) (m : Handle) :
    (repeatAt p s st m).2 = if st.2.isAncestorOrSelf m p then st.2
      else (st.2.showText m (st.2.repeatedText p m s)).2 := by
  simp only [repeatAt]
  split <;> rfl

/-- What is overwritten for `p` does not have `p` inside. -/
theorem not_isBelow_overwriteBy (hbelow : t.isBelow ms p = false) :
    t.isBelow (t.overwriteBy p ms m) p = false := by
  unfold overwriteBy
  split
  · exact hbelow
  · next hnot =>
    have habove : ¬t.isAncestorOrSelf m p := fun habove => hnot (by simp [habove])
    have hmem : m ∉ t.ancestors p := fun hmem =>
      habove (isAncestorOrSelf_iff.2 (List.mem_cons_of_mem _ hmem))
    rw [isBelow_cons, hbelow]
    simpa using hmem

/-- A tab stop repeats the primary one `p`, unless it has been lost or has `p` inside. -/
theorem repeatAt_first (ht : t.Unrepeated) (st : Bool × Tree) (hm : m ∈ t.placeholders)
    (hp : p ∈ t.placeholders) (hbelow : t.isBelow ms p = false) (hc : Cleared t ms st.2)
    (ha : Aged t ms st.2) (hbound : (t.overwriteBy p ms m).length < 2 ^ 32) :
    Cleared t (t.overwriteBy p ms m) (repeatAt p s st m).2 ∧
      Aged t (t.overwriteBy p ms m) (repeatAt p s st m).2 := by
  have hl := ht.wellLinked
  rw [repeatAt_snd, hc.above_eq hl (hl.mem_walk_root_of_placeholder hp).1 hbelow]
  cases habove : t.isAncestorOrSelf m p with
  | true =>
    have hskip : t.overwriteBy p ms m = ms := by simp [overwriteBy, habove]
    rw [if_pos rfl, hskip]
    exact ⟨hc, ha⟩
  | false =>
    rw [if_neg (by simp)]
    cases hlost : t.isBelow ms m with
    | true =>
      -- Its handle is stale, so all that is done is to make a text that stands alone
      have hskip : t.overwriteBy p ms m = ms := by simp [overwriteBy, hlost]
      have hg := grown_showText hc.wellLinked (ha.stale ht hm hlost) (st.2.repeatedText p m s)
      rw [hskip]
      exact ⟨hc.grown hg hl, ha.grown hg⟩
    | false =>
      have hadd : t.overwriteBy p ms m = m :: ms := by simp [overwriteBy, hlost, habove]
      have hmu := hc.inUse (hl.mem_walk_root_of_placeholder hm).1 hlost
      have hshown := shown_showText hc.wellLinked hmu (hc.text_children ht hm hlost)
        (st.2.repeatedText p m s)
      rw [hadd] at hbound ⊢
      exact ⟨hc.shown hshown hl hm hlost, ha.shown hc hshown hl hm hlost hbound⟩

/-- The tab stops of an index repeat the primary one `p`. Some of them may be lost on the way. -/
theorem foldl_repeatAt_first (ht : t.Unrepeated) (st : Bool × Tree) (hsub : hs ⊆ t.placeholders)
    (hp : p ∈ t.placeholders) (hbelow : t.isBelow ms p = false) (hns : ns ⊆ ms)
    (hc : Cleared t ms st.2) (ha : Aged t ms st.2)
    (hbound : (hs.foldl (t.overwriteBy p) ms).length < 2 ^ 32) :
    let st' := (hs.filter fun x => !t.isBelow ns x).foldl (repeatAt p s) st
    Cleared t (hs.foldl (t.overwriteBy p) ms) st'.2 ∧
      Aged t (hs.foldl (t.overwriteBy p) ms) st'.2 := by
  induction hs generalizing ms st with
  | nil => exact ⟨hc, ha⟩
  | cons m hs ih =>
    obtain ⟨hm, hsub⟩ := List.cons_subset.1 hsub
    rw [List.foldl_cons] at hbound ⊢
    rw [List.filter_cons]
    cases hgone : t.isBelow ns m with
    | true =>
      -- `m` was lost before the index was come to
      have hskip : t.overwriteBy p ms m = ms := by simp [overwriteBy, isBelow_mono hns hgone]
      rw [hskip] at hbound ⊢
      exact ih _ hsub hbelow hns hc ha hbound
    | false =>
      have hlater := (suffix_foldl_overwriteBy t p hs (t.overwriteBy p ms m)).length_le
      obtain ⟨hc, ha⟩ := repeatAt_first ht st hm hp hbelow hc ha (Nat.lt_of_le_of_lt hlater hbound)
      exact ih _ hsub (not_isBelow_overwriteBy hbelow)
        (List.Subset.trans hns (suffix_foldl_overwriteBy t p [m] ms).subset) hc ha hbound

/-- The tab stops of an index repeat the primary one `p` again. -/
theorem foldl_repeatAt_again (ht : t.Unrepeated) (st : Bool × Tree) (hp : p ∈ t.placeholders)
    (hbelow : t.isBelow ms p = false) (hc : Cleared t ms st.2)
    (hmem : ∀ m ∈ hs, m ∈ t.placeholders ∧ t.isBelow ms m = false ∧
      (t.isAncestorOrSelf m p = false → m ∈ ms)) :
    Cleared t ms (hs.foldl (repeatAt p s) st).2 := by
  have hl := ht.wellLinked
  have hpwalk := (hl.mem_walk_root_of_placeholder hp).1
  induction hs generalizing st with
  | nil => exact hc
  | cons m hs ih =>
    obtain ⟨⟨hm, hleft, hms⟩, hmem⟩ := List.forall_mem_cons.1 hmem
    apply ih _ _ hmem
    rw [repeatAt_snd, hc.above_eq hl hpwalk hbelow]
    split
    · exact hc
    · next habove =>
      -- `m` is overwritten once more
      have hms := hms (Bool.eq_false_iff.2 habove)
      have hmu := hc.inUse (hl.mem_walk_root_of_placeholder hm).1 hleft
      have hshown := shown_showText hc.wellLinked hmu (hc.text_children ht hm hleft)
        (st.2.repeatedText p m s)
      apply (hc.shown hshown hl hm hleft).congr
      · exact List.cons_subset.2 ⟨hms, fun _ hx => hx⟩
      · exact List.subset_cons_self _ _

theorem repeatPrimary_snd (hc : Cleared t ms u) (ht : t.Unrepeated) (hp : p ∈ t.placeholders)
    (hbelow : t.isBelow ms p = false) (hi : t.index? p = some i) :
    (u.repeatPrimary p).2 = (((t.placeholdersOf i).filter fun x => !t.isBelow ms x).foldl
      (repeatAt p (u.render p)) (false, u)).2 := by
  have hl := ht.wellLinked
  have hwalk := (hl.mem_walk_root_of_placeholder hp).1
  -- `p` is left, and its way up to the root is what it was
  have hattached : u.isAttached p := by
    have := hl.isAttached_of_mem hwalk
    rw [isAttached, (hl.mem_walk_root_inUse hwalk).owned] at this
    rw [isAttached, (hc.inUse hwalk hbelow).owned, hc.ancestors_eq hl hwalk hbelow, hc.root_eq]
    exact this
  rw [repeatPrimary, hattached, hc.index?_eq hl hwalk hbelow, hi, ← hc.placeholdersOf_eq hl]
  rfl

/-! ## Passes -/

/-- What a pass does about one primary tab stop. -/
def repeatStep (st : Bool × Tree) (p : Handle) : Bool × Tree :=
  if (st.2.index? p).any (!·.isFinal) then
    let (changed, t) := st.2.repeatPrimary p
    (st.1 || changed, t)
  else st

theorem repeatStep_snd (st : Bool × Tree) (p : Handle) :
    (repeatStep st p).2 =
      if (st.2.index? p).any (!·.isFinal) then (st.2.repeatPrimary p).2 else st.2 := by
  unfold repeatStep
  split <;> rfl

private theorem repeatStep_first (ht : t.Unrepeated) (st : Bool × Tree) (hp : p ∈ t.placeholders)
    (hc : Cleared t ms st.2) (ha : Aged t ms st.2)
    (hbound : (t.overwrittenBy ms p).length < 2 ^ 32) :
    Cleared t (t.overwrittenBy ms p) (repeatStep st p).2 ∧
      Aged t (t.overwrittenBy ms p) (repeatStep st p).2 := by
  have hl := ht.wellLinked
  have hwalk := (hl.mem_walk_root_of_placeholder hp).1
  rw [repeatStep_snd]
  cases hbelow : t.isBelow ms p with
  | true =>
    -- `p` is lost, and it has no index any more
    have hnone : st.2.index? p = none := by
      have howns : st.2.owns p = false := by
        apply Bool.eq_false_iff.2
        intro ho
        exact ha.stale ht hp hbelow (owns_iff.1 ho).2.2
      simp [index?, placeholder?, marker?, howns]
    have hskip : t.overwrittenBy ms p = ms := by
      unfold overwrittenBy
      split <;> simp [hbelow]
    rw [hnone, hskip]
    exact ⟨hc, ha⟩
  | false =>
    rw [hc.index?_eq hl hwalk hbelow]
    unfold overwrittenBy at hbound ⊢
    cases hi : t.index? p with
    | none => exact ⟨hc, ha⟩
    | some i =>
      cases hfinal : i.isFinal with
      | true => simpa [hfinal] using ⟨hc, ha⟩
      | false =>
        simp only [hi, hfinal, hbelow, Bool.or_self, Bool.false_eq_true, ↓reduceIte] at hbound
        simp only [Option.any_some, hfinal, hbelow, Bool.not_false, ↓reduceIte, Bool.or_self,
          Bool.false_eq_true, repeatPrimary_snd hc ht hp hbelow hi]
        exact foldl_repeatAt_first ht (false, st.2)
          (placeholdersOf_sublist t i).subset hp hbelow (fun _ hx => hx) hc ha hbound

private theorem foldl_repeatStep_first (ht : t.Unrepeated) (st : Bool × Tree)
    (hsub : ps ⊆ t.placeholders) (hc : Cleared t ms st.2) (ha : Aged t ms st.2)
    (hbound : (ps.foldl t.overwrittenBy ms).length < 2 ^ 32) :
    Cleared t (ps.foldl t.overwrittenBy ms) (ps.foldl repeatStep st).2 := by
  induction ps generalizing ms st with
  | nil => exact hc
  | cons p ps ih =>
    obtain ⟨hp, hsub⟩ := List.cons_subset.1 hsub
    -- The bound on all that are overwritten bounds those that are by now
    have hlength := (suffix_foldl_overwrittenBy t ps (t.overwrittenBy ms p)).length_le
    obtain ⟨hc, ha⟩ := repeatStep_first ht st hp hc ha (Nat.lt_of_le_of_lt hlength hbound)
    exact ih _ hsub hc ha hbound

private theorem foldl_repeatStep_again (ht : t.Unrepeated) (st : Bool × Tree)
    (hps : ∀ p ∈ ps, p ∈ t.primaries ∧ t.isBelow t.overwritten p = false)
    (hc : Cleared t t.overwritten st.2) : Cleared t t.overwritten (ps.foldl repeatStep st).2 := by
  have hl := ht.wellLinked
  -- Induction on the tab stops, with what is cleared kept by each of them
  induction ps generalizing st with
  | nil => exact hc
  | cons p ps ih =>
    obtain ⟨⟨hprimary, hbelow⟩, hps⟩ := List.forall_mem_cons.1 hps
    have hp := (List.mem_filter.1 hprimary).1
    have hwalk := (hl.mem_walk_root_of_placeholder hp).1
    apply ih _ hps
    rw [repeatStep_snd, hc.index?_eq hl hwalk hbelow]
    cases hi : t.index? p with
    | none => exact hc
    | some i =>
      cases hfinal : i.isFinal with
      | true => simpa [hfinal] using hc
      | false =>
        simp only [Option.any_some, hfinal, Bool.not_false, ↓reduceIte,
          repeatPrimary_snd hc ht hp hbelow hi]
        apply foldl_repeatAt_again ht (false, st.2) hp hbelow hc
        intro m hm
        obtain ⟨hm, hleft⟩ := List.mem_filter.1 hm
        have hleft : t.isBelow t.overwritten m = false := by simpa using hleft
        exact ⟨(placeholdersOf_sublist t i).subset hm, hleft,
          mem_foldl_overwrittenBy hprimary hi hfinal hbelow hm hleft⟩

theorem repeatPasses_succ (n : Nat) (t : Tree) : repeatPasses (n + 1) t =
    if t.repeatPass.1 then repeatPasses n t.repeatPass.2 else t.repeatPass.2 := rfl

theorem WellLinked.length_placeholders_lt (hl : t.WellLinked) :
    t.placeholders.length < t.capacity := by
  have hroot := Linked.root_inUse hl
  -- The root is no tab stop and has a slot as well
  have hplaceholders : t.placeholders.length ≤ (t.walk t.root).length - 1 := by
    rw [← List.length_drop]
    exact List.length_filter_le ..
  have hpos := List.length_pos_of_mem (hl.mem_walk_self hroot)
  have hcapacity := hl.length_walk_le hroot
  omega

/-- An index that has one primary tab stop at most does not have two. -/
theorem eq_of_primaries {q : Handle}
    (hsingle : ((t.placeholdersOf i).filter t.isPrimary).length ≤ 1) (hp : p ∈ t.primaries)
    (hq : q ∈ t.primaries) (hpi : t.index? p = some i) (hqi : t.index? q = some i) : p = q := by
  have hmem {x : Handle} (hx : x ∈ t.primaries) (hxi : t.index? x = some i) :
      x ∈ (t.placeholdersOf i).filter t.isPrimary := by
    obtain ⟨hx, hmarked⟩ := List.mem_filter.1 hx
    exact List.mem_filter.2 ⟨List.mem_filter.2 ⟨hx, by simp [hxi]⟩, hmarked⟩
  have hp := hmem hp hpi
  have hq := hmem hq hqi
  match hlist : (t.placeholdersOf i).filter t.isPrimary with
  | [] => simp [hlist] at hp
  | [r] =>
    rw [hlist, List.mem_singleton] at hp hq
    rw [hp, hq]
  | _ :: _ :: _ => simp [hlist] at hsingle

namespace Unrepeated

theorem overwritten_nodup (ht : t.Unrepeated) :
    t.overwritten.Nodup ∧ t.overwritten ⊆ t.placeholders := by
  have hl := ht.wellLinked
  apply nodup_foldl_overwrittenBy hl.nodup_placeholders
  · exact (hl.nodup_placeholders.sublist List.filter_sublist).imp_of_mem fun hp hq hne i hi hfinal
      hqi => hne (eq_of_primaries (ht.single hfinal) hp hq hi hqi)
  · exact List.nodup_nil
  · simp
  · simp

theorem length_overwritten_lt (ht : t.Unrepeated) : t.overwritten.length < t.capacity := by
  obtain ⟨hnodup, hsub⟩ := ht.overwritten_nodup
  exact Nat.lt_of_le_of_lt (hnodup.length_le_of_subset hsub) ht.wellLinked.length_placeholders_lt

theorem repeatPass (ht : t.Unrepeated) (hcapacity : t.capacity ≤ 2 ^ 32) :
    Cleared t t.overwritten t.repeatPass.2 :=
  foldl_repeatStep_first ht (false, t) List.filter_sublist.subset
    (.refl ht.wellLinked) (.refl ht) (Nat.lt_of_lt_of_le ht.length_overwritten_lt hcapacity)

theorem repeatPasses (ht : t.Unrepeated) (n : Nat) (hc : Cleared t t.overwritten u) :
    Cleared t t.overwritten (u.repeatPasses n) := by
  induction n generalizing u with
  | zero => exact hc
  | succ n ih =>
    -- A later pass finds the primary tab stops that are left, and overwrites nothing new
    have hpass : Cleared t t.overwritten u.repeatPass.2 := by
      refine foldl_repeatStep_again ht (false, u) (fun p hp => ?_) hc
      obtain ⟨hp, hmarked⟩ := List.mem_filter.1 hp
      rw [hc.placeholders_eq ht.wellLinked] at hp
      obtain ⟨hp, hleft⟩ := List.mem_filter.1 hp
      have hleft : t.isBelow t.overwritten p = false := by simpa using hleft
      have hwalk := (ht.wellLinked.mem_walk_root_of_placeholder hp).1
      rw [isPrimary, hc.placeholder?_eq ht.wellLinked hwalk hleft] at hmarked
      exact ⟨List.mem_filter.2 ⟨hp, hmarked⟩, hleft⟩
    rw [repeatPasses_succ]
    split
    · exact ih hpass
    · exact hpass

/-- When all tab stops have been repeated, those that are overwritten have lost what was inside. -/
theorem repeatAll (ht : t.Unrepeated) (hcapacity : t.capacity ≤ 2 ^ 32) :
    Cleared t t.overwritten t.repeatAll := by
  unfold Tree.repeatAll
  rw [repeatPasses_succ]
  split
  · exact ht.repeatPasses _ (ht.repeatPass hcapacity)
  · exact ht.repeatPass hcapacity

end Unrepeated

end TabStop.Tree
