import TabStop.Proofs.Repeat.Calm

/-!
# The final tab stop

A final tab stop that is put at the end of the document is a primary one that no other tab stop
repeats. So what is true of the tab stops of the document is true of them when it has been added.
-/

namespace TabStop.Tree

variable {t u : Tree} {c h m p q x : Handle} {i j : TabIndex}

theorem WellLinked.root_not_mem_walk (hl : t.WellLinked) (hq : q ∈ t.placeholders) :
    t.root ∉ t.walk q := by
  obtain ⟨hqu, -, habove⟩ := hl.mem_placeholders_iff.1 hq
  have hne : t.root ≠ q := by
    rintro rfl
    simp [hl.ancestors_root] at habove
  rw [hl.mem_walk_of_ne hqu (Linked.root_inUse hl) hne, hl.ancestors_root]
  simp

namespace Appended

variable (ha : Appended t (.placeholder { index := .final, primary := true }) h u)

include ha

theorem placeholder?_eq (hx : t.InUse x) : u.placeholder? x = t.placeholder? x := by
  rw [placeholder?, placeholder?, ha.marker?_eq hx]

theorem index?_eq (hx : t.InUse x) : u.index? x = t.index? x := by
  rw [index?, index?, ha.placeholder?_eq hx]

theorem isPrimary_eq (hx : t.InUse x) : u.isPrimary x = t.isPrimary x := by
  rw [isPrimary, isPrimary, ha.placeholder?_eq hx]

theorem index?_new : u.index? h = some .final := by
  rw [index?, placeholder?, ha.marker?_new]
  rfl

theorem placeholders_eq (hl : t.WellLinked) : u.placeholders = t.placeholders ++ [h] := by
  have hnew : (u.placeholder? h).isSome := by
    rw [← index?_isSome, ha.index?_new]
    rfl
  rw [placeholders, ha.descendants_eq hl, List.filter_append, placeholders]
  congr 1
  · apply List.filter_congr
    intro x hx
    rw [ha.placeholder?_eq (hl.mem_descendants_iff.1 hx).1]
  · simp [hnew]

theorem primaries_eq (hl : t.WellLinked) : u.primaries = t.primaries ++ [h] := by
  have hnew : u.isPrimary h := by
    rw [isPrimary, placeholder?, ha.marker?_new]
    rfl
  rw [primaries, ha.placeholders_eq hl, List.filter_append, primaries]
  congr 1
  · apply List.filter_congr
    intro x hx
    rw [ha.isPrimary_eq (hl.inUse_of_mem_placeholders hx)]
  · simp [hnew]

theorem leaders_eq (hl : t.WellLinked) : u.leaders = t.leaders := by
  have hnew : u.isFinal h := by
    rw [isFinal, ha.index?_new]
    decide
  have hold : [h].filter (fun x => !u.isFinal x) = [] := by simp [hnew]
  rw [leaders, ha.primaries_eq hl, List.filter_append, hold, List.append_nil, leaders]
  apply List.filter_congr
  intro x hx
  have hmem := (List.mem_filter.1 hx).1
  rw [isFinal, isFinal, ha.index?_eq (hl.inUse_of_mem_placeholders hmem)]

/-- The new tab stop follows none. -/
theorem follows_iff (hl : t.WellLinked) (hp : p ∈ t.leaders) :
    u.Follows m p ↔ t.Follows m p := by
  have hpu := hl.inUse_of_mem_placeholders (mem_leaders_iff.1 hp).1
  have habove : u.isAncestorOrSelf m p = t.isAncestorOrSelf m p := by
    rw [isAncestorOrSelf, isAncestorOrSelf, ha.ancestors_eq hl hpu]
  constructor
  · intro hf
    have hindex := hf.index?_eq
    rw [ha.index?_eq hpu] at hindex
    have hmem : m ∈ t.placeholders := by
      have hmem := hf.mem
      rw [ha.placeholders_eq hl, List.mem_append] at hmem
      -- The new tab stop is the final one, which no leader has the index of
      apply hmem.resolve_right
      intro hnew
      obtain ⟨i, hi, hfinal⟩ := exists_index?_of_mem_leaders hp
      rw [List.mem_singleton.1 hnew, ha.index?_new, hi] at hindex
      rw [← Option.some.inj hindex] at hfinal
      exact absurd hfinal (by decide)
    exact ⟨hmem, by rwa [← ha.index?_eq (hl.inUse_of_mem_placeholders hmem)],
      habove ▸ hf.not_above⟩
  · intro hf
    refine ⟨?_, ?_, habove.trans hf.not_above⟩
    · rw [ha.placeholders_eq hl]
      exact List.mem_append_left _ hf.mem
    · rw [ha.index?_eq hpu, ha.index?_eq (hl.inUse_of_mem_placeholders hf.mem), hf.index?_eq]

/-- What is in another tab stop is what it was. -/
theorem children_eq (hl : t.WellLinked) (hm : m ∈ t.placeholders) :
    (u.slotOf m).children = (t.slotOf m).children ∧ ∀ c ∈ (t.slotOf m).children,
      (u.slotOf c).marker = (t.slotOf c).marker ∧
        (u.slotOf c).children = (t.slotOf c).children := by
  have hmu := hl.inUse_of_mem_placeholders hm
  have hroot := hl.root_not_mem_walk hm
  have hmr : m ≠ t.root := fun heq => hroot (heq ▸ hl.mem_walk_self hmu)
  refine ⟨by rw [ha.children hmu, if_neg hmr], fun c hc => ?_⟩
  have hcu := (Linked.child hl hmu hc).1
  have hcr : c ≠ t.root := by
    rintro rfl
    exact hroot ((hl.mem_walk_cons hmu).2 (Or.inr ⟨_, hc, hl.mem_walk_self hcu⟩))
  exact ⟨ha.marker hcu, by rw [ha.children hcu, if_neg hcr]⟩

theorem holds (hl : t.WellLinked) (hij : t.Holds i j) : u.Holds i j := by
  obtain ⟨hfinal, hne, q, hq, hi, m, hm, hprimary, hj⟩ := hij
  have hqmem := (List.mem_filter.1 hq).1
  have hqu := hl.inUse_of_mem_placeholders hqmem
  have hmu := ((hl.mem_walk_iff hqu).1 hm).1
  refine ⟨hfinal, hne, q, ?_, (ha.index?_eq hqu).trans hi, m, ?_, (ha.isPrimary_eq hmu).trans hprimary,
    (ha.index?_eq hmu).trans hj⟩
  · rw [ha.primaries_eq hl]
    exact List.mem_append_left _ hq
  · rwa [ha.walk_eq hl hqu (hl.root_not_mem_walk hqmem)]

theorem steady (ht : t.Steady) (hlength : t.placeholders.length + 1 < 2 ^ 32) : u.Steady := by
  have hl := ht.wellLinked
  refine ⟨⟨ha.wellLinked, ?_, fun p hp q hq heq => ?_⟩, fun p hp m hf c hc => ?_⟩
  · rw [ha.placeholders_eq hl, List.length_append]
    exact hlength
  · rw [ha.leaders_eq hl] at hp hq
    apply ht.single p hp q hq
    rwa [ha.index?_eq (hl.inUse_of_mem_placeholders (mem_leaders_iff.1 hp).1),
      ha.index?_eq (hl.inUse_of_mem_placeholders (mem_leaders_iff.1 hq).1)] at heq
  · rw [ha.leaders_eq hl] at hp
    rw [ha.follows_iff hl hp] at hf
    obtain ⟨hchildren, hbelow⟩ := ha.children_eq hl hf.mem
    rw [hchildren] at hc
    rw [(hbelow c hc).1, (hbelow c hc).2]
    exact ht.calm p hp m hf c hc

theorem upToDate (hl : t.WellLinked) (ht : t.UpToDate) : u.UpToDate := by
  intro p hp i hi hg m hf
  rw [ha.leaders_eq hl] at hp
  rw [ha.index?_eq (hl.inUse_of_mem_placeholders (mem_leaders_iff.1 hp).1)] at hi
  have hs : t.Settled p := ht p hp i hi (hg.mono fun _ _ => ha.holds hl)
  rw [ha.follows_iff hl hp] at hf
  have hpmem := (mem_leaders_iff.1 hp).1
  have hmu := hl.inUse_of_mem_placeholders hf.mem
  -- The new tab stop is a child of the root, so it is in no tab stop and shown by none
  have hrender := ha.render_eq hl (hl.inUse_of_mem_placeholders hpmem) (hl.root_not_mem_walk hpmem)
  have htext (s : String) : u.repeatedText p m s = t.repeatedText p m s := by
    rw [repeatedText, repeatedText, isAncestorOrSelf, isAncestorOrSelf, ha.ancestors_eq hl hmu,
      ha.placeholder?_eq hmu]
  obtain ⟨hchildren, hbelow⟩ := ha.children_eq hl hf.mem
  rw [htext, hrender]
  rcases hs m hf with ⟨hempty, hnil⟩ | ⟨hne, c, hone, hmarker⟩
  · exact Or.inl ⟨hempty, hchildren.trans hnil⟩
  · refine Or.inr ⟨hne, c, hchildren.trans hone, ?_⟩
    rw [(hbelow c (by simp [hone])).1, hmarker]

end Appended

theorem Steady.insertFinal (ht : t.Steady) (htold : t.UpToDate)
    (hlength : t.placeholders.length + 1 < 2 ^ 32) :
    t.insertFinal.2.Steady ∧ t.insertFinal.2.UpToDate := by
  obtain ⟨h, u, hperform, happended⟩ :=
    ht.wellLinked.appendNew (.placeholder { index := .final, primary := true })
  unfold Tree.insertFinal
  split
  · exact ⟨ht, htold⟩
  · simp only [hperform]
    exact ⟨happended.steady ht hlength, happended.upToDate ht.wellLinked htold⟩

/-- A snippet as it comes from a source is up to date and can be kept so. The tree of a source has
fewer slots than there are numbers of 32 bits. -/
theorem steady_ofSnippet (identity : Nat) (d : Dialect) (source : String) (final : Bool)
    (hcapacity : (ofSource identity d source).capacity < 2 ^ 32) :
    (ofSnippet identity d source final).Steady ∧
      (ofSnippet identity d source final).UpToDate := by
  have ht := unrepeated_ofSource identity d source
  have hlt : (ofSource identity d source).assignPrimaries.capacity < 2 ^ 32 := by
    rw [capacity, (sameLinks_assignPrimaries (ofSource identity d source)).size]
    exact hcapacity
  obtain ⟨hsteady, htold⟩ := ht.steady_repeatAll hlt.le
  -- No tab stop is new but the final one
  have hremains := (ht.repeatable hlt.le).settled_of_repeatPass.1
  have hlength := hremains.wellLinked.nodup_placeholders.length_le_of_subset fun x hx =>
    hremains.mem_placeholders ht.wellLinked hx
  have hbound := ht.wellLinked.length_placeholders_lt
  have hsnippet : ofSnippet identity d source final =
      if final then (ofSource identity d source).assignPrimaries.repeatAll.insertFinal.2
      else (ofSource identity d source).assignPrimaries.repeatAll := rfl
  rw [hsnippet]
  split
  · exact hsteady.insertFinal htold (by omega)
  · exact ⟨hsteady, htold⟩

end TabStop.Tree
