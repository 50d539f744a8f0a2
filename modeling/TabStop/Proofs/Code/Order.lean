import TabStop.Proofs.Code.Freshness

/-!
# Which orders of python blocks are allowed

The blocks that make the text of a tab stop are put in the order of the document. An index may be made
by several blocks. A block that reads it is let through as soon as one of them has been seen, also if
another one is still to come. So there is no order exactly if a block reads an index of which all makers
come later, and a block of an order may have makers of what it reads on both sides of it.
-/

namespace TabStop.Tree

variable {t : Tree} {made seen : List TabIndex} {bs : List (Handle × TabIndex)}
  {xs ys : List Handle} {b : Handle} {n : Nat}

/-- The python blocks that make the text of a tab stop, in the order of the document. -/
def boundPythonBlocks (t : Tree) : List Handle :=
  (t.descendants t.root).filter fun h => t.isPython h && (t.boundIndex? h).isSome

/-- Some block of a list makes the text of an index. -/
def Makes (t : Tree) (blocks : List Handle) (n : Nat) : Prop :=
  ∃ b ∈ blocks, t.boundIndex? b = some (.ofNat n)

/-- A block reads an index that is not its own, and that one of the blocks behind it makes. -/
structure ReadsAhead (t : Tree) (b : Handle) (behind : List Handle) (n : Nat) : Prop where
  reads : n ∈ t.related b
  foreign : t.boundIndex? b ≠ some (.ofNat n)
  behind : t.Makes behind n

/-! ## The order with the indexes -/

theorem readsForward_eq_false_iff {c : Handle × TabIndex} :
    t.readsForward made seen c = false ↔
      ∀ n ∈ t.related c.1, c.2 ≠ .ofNat n → .ofNat n ∈ made → .ofNat n ∈ seen := by
  rw [readsForward, List.any_eq_false]
  refine forall₂_congr fun n _ => ?_
  simp only [bne_iff_ne, ne_eq, Bool.and_eq_true, List.contains_eq_mem, decide_eq_true_eq,
    Bool.not_eq_true', decide_eq_false_iff_not, not_and, not_not, and_imp, eq_comm (a := c.2)]

/-- An order is allowed as soon as each block reads what is made before it, by itself or by none. -/
theorem isOrdered_of_reads
    (h : ∀ xs c ys, bs = xs ++ c :: ys → ∀ n ∈ t.related c.1, c.2 ≠ .ofNat n → .ofNat n ∈ made →
      .ofNat n ∈ seen ∨ ∃ x ∈ xs, x.2 = .ofNat n) :
    t.isOrdered made seen bs := by
  induction bs generalizing seen with
  | nil => rfl
  | cons c bs ih =>
    rw [isOrdered, Bool.and_eq_true, Bool.not_eq_true']
    constructor
    · refine readsForward_eq_false_iff.2 fun n hn hown hmade => ?_
      exact (h [] c bs rfl n hn hown hmade).resolve_right (by simp)
    · refine ih fun xs c' ys hsplit n hn hown hmade => ?_
      rcases h (c :: xs) c' ys (by rw [hsplit]; rfl) n hn hown hmade with hseen | ⟨x, hx, hxn⟩
      · exact Or.inl (List.mem_cons_of_mem _ hseen)
      · rcases List.mem_cons.1 hx with rfl | hx
        · exact Or.inl (hxn ▸ List.mem_cons_self ..)
        · exact Or.inr ⟨x, hx, hxn⟩

/-! ## The order of the blocks alone -/

theorem boundBlocks_map_fst : t.boundBlocks.map (·.1) = t.boundPythonBlocks := by
  rw [boundBlocks, boundPythonBlocks, pythonBlocks, List.map_filterMap]
  simp only [Bool.and_comm (t.isPython _), ← List.filter_filter]
  conv_rhs => rw [← List.filterMap_eq_filter]
  refine List.filterMap_congr fun h _ => ?_
  cases hbound : t.boundIndex? h <;> simp [hbound, Option.guard]

/-- A block and the index that it makes, as they are listed. -/
theorem boundIndex?_of_mem {c : Handle × TabIndex} (hc : c ∈ t.boundBlocks) :
    t.boundIndex? c.1 = some c.2 := (mem_boundBlocks_iff.1 hc).2

theorem boundBlocks_split (hsplit : t.boundPythonBlocks = xs ++ b :: ys) : ∃ cs i ds,
    t.boundBlocks = cs ++ (b, i) :: ds ∧ cs.map (·.1) = xs ∧ ds.map (·.1) = ys := by
  rw [← boundBlocks_map_fst, List.map_eq_append_iff] at hsplit
  obtain ⟨cs, rest, hsplit, hxs, hrest⟩ := hsplit
  obtain ⟨⟨b', i⟩, ds, rfl, rfl, hys⟩ := List.map_eq_cons_iff.1 hrest
  exact ⟨cs, i, ds, hsplit, hxs, hys⟩

theorem makes_map_fst {cs : List (Handle × TabIndex)} (hcs : cs ⊆ t.boundBlocks) :
    t.Makes (cs.map (·.1)) n ↔ ∃ c ∈ cs, c.2 = .ofNat n := by
  rw [Makes]
  constructor
  · rintro ⟨b, hb, hbound⟩
    obtain ⟨c, hc, rfl⟩ := List.mem_map.1 hb
    rw [boundIndex?_of_mem (hcs hc)] at hbound
    exact ⟨c, hc, Option.some.inj hbound⟩
  · rintro ⟨c, hc, hcn⟩
    exact ⟨c.1, List.mem_map_of_mem hc, hcn ▸ boundIndex?_of_mem (hcs hc)⟩

/-- An order is allowed exactly if a block reads ahead only what is made before it as well. -/
theorem isOrdered_iff :
    t.isOrdered (t.boundBlocks.map (·.2)) [] t.boundBlocks ↔
      ∀ xs b ys n, t.boundPythonBlocks = xs ++ b :: ys → t.ReadsAhead b ys n → t.Makes xs n := by
  constructor
  · rintro ho xs b ys n hsplit ⟨hreads, hforeign, hbehind⟩
    obtain ⟨cs, i, ds, hblocks, rfl, rfl⟩ := boundBlocks_split hsplit
    have hsub : cs ++ (b, i) :: ds ⊆ t.boundBlocks := hblocks ▸ List.Subset.refl _
    obtain ⟨hcs, hds⟩ := List.append_subset.1 hsub
    obtain ⟨hb, hds⟩ := List.cons_subset.1 hds
    obtain ⟨d, hd, hdn⟩ := (makes_map_fst hds).1 hbehind
    rw [boundIndex?_of_mem hb] at hforeign
    have hmade : TabIndex.ofNat n ∈ t.boundBlocks.map (·.2) :=
      hdn ▸ List.mem_map_of_mem (hds hd)
    generalize t.boundBlocks.map (·.2) = made at ho hmade
    rw [hblocks] at ho
    have hbefore := isOrdered_reads ho hreads (fun heq => hforeign (congrArg some heq)) hmade
    exact (makes_map_fst hcs).2 (hbefore.resolve_left (by simp))
  · intro h
    refine isOrdered_of_reads fun cs c ds hblocks n hreads hown hmade => Or.inr ?_
    have hsub : cs ++ c :: ds ⊆ t.boundBlocks := hblocks ▸ List.Subset.refl _
    obtain ⟨hcs, hds⟩ := List.append_subset.1 hsub
    obtain ⟨hc, hds⟩ := List.cons_subset.1 hds
    -- The maker stands before the block, or behind it
    obtain ⟨d, hd, hdn⟩ := List.mem_map.1 hmade
    rw [hblocks, List.mem_append, List.mem_cons] at hd
    rcases hd with hd | rfl | hd
    · exact ⟨d, hd, hdn⟩
    · exact absurd hdn hown
    · refine (makes_map_fst hcs).1 (h _ c.1 (ds.map (·.1)) n ?_ ⟨hreads, ?_, ?_⟩)
      · rw [← boundBlocks_map_fst, hblocks, List.map_append, List.map_cons]
      · rw [boundIndex?_of_mem hc]
        exact fun heq => hown (Option.some.inj heq)
      · exact (makes_map_fst hds).2 ⟨d, hd, hdn⟩

theorem orderedPythonBlocks_eq :
    t.orderedPythonBlocks =
      if t.isOrdered (t.boundBlocks.map (·.2)) [] t.boundBlocks then t.boundPythonBlocks else [] := by
  rw [orderedPythonBlocks, boundBlocks_map_fst]

/-- If each index is made by one block at most, then no block of an order reads ahead. -/
theorem not_readsAhead_of_single
    (hsingle : ∀ x ∈ t.boundPythonBlocks, ∀ y ∈ t.boundPythonBlocks,
      t.boundIndex? x = t.boundIndex? y → x = y)
    (hl : t.boundPythonBlocks.Nodup) (hsplit : t.orderedPythonBlocks = xs ++ b :: ys) :
    ¬t.ReadsAhead b ys n := by
  intro hahead
  rw [orderedPythonBlocks_eq] at hsplit
  split at hsplit
  · next ho =>
    obtain ⟨x, hx, hxn⟩ := isOrdered_iff.1 ho xs b ys n hsplit hahead
    obtain ⟨y, hy, hyn⟩ := hahead.behind
    rw [hsplit] at hsingle hl
    obtain rfl : x = y := hsingle x (by simp [hx]) y (by simp [hy]) (hxn.trans hyn.symm)
    exact (List.nodup_append'.1 hl).2.2 hx (List.mem_cons_of_mem _ hy)
  · simp at hsplit

/-- The python blocks that are run are all that make the text of a tab stop, in the order of the
document, and what one of them reads from a later one is made by an earlier one too. None is run if and
only if there is none, or some block reads an index, not its own, that later blocks make and no
earlier one does. -/
theorem orderedPythonBlocks_order (t : Tree) :
    (t.orderedPythonBlocks ≠ [] → t.orderedPythonBlocks = t.boundPythonBlocks ∧
      ∀ xs b ys n, t.orderedPythonBlocks = xs ++ b :: ys → t.ReadsAhead b ys n → t.Makes xs n) ∧
    (t.orderedPythonBlocks = [] ↔ t.boundPythonBlocks = [] ∨
      ∃ xs b ys n, t.boundPythonBlocks = xs ++ b :: ys ∧ t.ReadsAhead b ys n ∧
        ¬t.Makes xs n) := by
  by_cases ho : t.isOrdered (t.boundBlocks.map (·.2)) [] t.boundBlocks
  · rw [orderedPythonBlocks_eq, if_pos ho]
    have hbefore := isOrdered_iff.1 ho
    refine ⟨fun _ => ⟨rfl, hbefore⟩, Or.inl, ?_⟩
    rintro (hnone | ⟨xs, b, ys, n, hsplit, hahead, hlate⟩)
    · exact hnone
    · exact absurd (hbefore xs b ys n hsplit hahead) hlate
  · rw [orderedPythonBlocks_eq, if_neg ho]
    refine ⟨fun hne => absurd rfl hne, fun _ => Or.inr ?_, fun _ => rfl⟩
    simpa only [isOrdered_iff, not_forall, exists_prop] using ho

end TabStop.Tree
