import TabStop.Proofs.Grammar.Elements
import TabStop.Tree.Python

/-!
# Round trips through source

A tree that has been read from a source is written, and what is written is read again: the second
tree has the outline of the first. In TextMate this holds of every source. In UltiSnips it holds of
every source without code, since the blanks around code are dropped when a block is read.
-/

namespace TabStop

open Token Grammar

namespace Tree

variable {d : Dialect} {source : String} {row : List Outline}

/-! ## Trees of sources -/

/-- A tree shows the row of nodes that the events of its source tell. -/
theorem shows_ofSource (identity : Nat) (h : Event.Tells (Event.ofSource d source) [] row) :
    (ofSource identity d source).Shows (ofSource identity d source).root (.node .root row) ∧
      (Outline.node .root row).size ≤ (ofSource identity d source).capacity := by
  have hclose : (Draft.start.run (Event.ofSource d source)).close = .node .root row := by
    rw [Draft.start, h .root []]
    rfl
  rw [← hclose]
  exact ⟨shows_ofEvents identity d _, size_le_capacity_ofEvents identity d _⟩

theorem ofSource_dialect (identity : Nat) (d : Dialect) (source : String) :
    (ofSource identity d source).dialect = d := by
  rw [ofSource, ofEvents_eq]
  rfl

theorem outline_ofSource (identity : Nat) (h : Event.Tells (Event.ofSource d source) [] row) :
    (ofSource identity d source).outline = .node .root row :=
  (shows_ofSource identity h).1.outline_eq (shows_ofSource identity h).2

theorem source_ofSource (identity : Nat) (h : Event.Tells (Event.ofSource d source) [] row) :
    (ofSource identity d source).source = Outline.sourceAll d row := by
  rw [(shows_ofSource identity h).1.source_eq (shows_ofSource identity h).2, ofSource_dialect]
  rfl

/-- The outline of the tree of a source leaves nothing out. -/
theorem shows_outline_ofSource (identity : Nat) (d : Dialect) (source : String) :
    (ofSource identity d source).Shows (ofSource identity d source).root
      (ofSource identity d source).outline := by
  obtain ⟨row, -, htells⟩ := readable_ofSource d source
  rw [outline_ofSource identity htells]
  exact (shows_ofSource identity htells).1

/-- A tree without code blocks shows no code. -/
theorem code?_eq_none_of_hasCode {identity : Nat}
    (h : Event.Tells (Event.ofSource d source) [] row)
    (hcode : (ofSource identity d source).hasCode = false) :
    ∀ m ∈ Outline.markersAll row, m.code? = none := by
  intro m hm
  obtain ⟨hshows, hsize⟩ := shows_ofSource identity h
  have hmarkers := hshows.descendants_markers hsize
  -- A marker of the row is one of a node below the root, none of which is code
  have hmem : some m ∈ ((ofSource identity d source).descendants
      (ofSource identity d source).root).map (ofSource identity d source).marker? := by
    rw [hmarkers]
    exact List.mem_map_of_mem hm
  obtain ⟨x, hx, hxm⟩ := List.mem_map.1 hmem
  have hblocks : (ofSource identity d source).codeBlocks = [] := by
    simpa [hasCode] using hcode
  have := List.filter_eq_nil_iff.1 hblocks x hx
  simpa [code?, hxm] using this

end Tree

/-! ## Reading what is written -/

/-- What is true of the readable nodes and of the options of choices is true of all nodes that a
readable one is made of. -/
theorem Outline.Readable.forall_markers {d : Dialect} {P : Marker → Prop}
    (hP : ∀ {m cs}, Readable d (.node m cs) → P m) (hchoice : ∀ os, P (.choice ⟨os⟩)) {o : Outline}
    (ho : Readable d o) : ∀ m ∈ o.markers, P m := by
  -- The nodes below a tab stop or a variable are readable too, so it is true of them by induction
  have hnode {m : Marker} {cs : List Outline} (h : Readable d (.node m cs))
      (ih : ∀ o ∈ cs, ∀ m ∈ o.markers, P m) : ∀ k ∈ (node m cs).markers, P k := by
    refine List.forall_mem_cons.2 ⟨hP h, fun k hk => ?_⟩
    obtain ⟨o, ho, hko⟩ := mem_markersAll.1 hk
    exact ih o ho k hko
  induction ho with
  | text hs => exact hnode (.text hs) (by simp)
  | placeholder hn hcs hsep ih => exact hnode (.placeholder hn hcs hsep) ih
  | choice hn hfinal hne hos =>
    exact hnode (.choice hn hfinal hne hos) (by simpa [markers, markersAll] using hchoice _)
  | placeholderTransform hn ht => exact hnode (.placeholderTransform hn ht) (by simp)
  | var hname haccepts hcs hsep ih => exact hnode (.var hname haccepts hcs hsep) ih
  | varTransform hname haccepts ht => exact hnode (.varTransform hname haccepts ht) (by simp)
  | code hd => exact hnode (.code hd) (by simp)

/-- In TextMate there is no code. -/
theorem Outline.Readable.code?_eq_none {o : Outline} (ho : Readable .textMate o) :
    ∀ m ∈ o.markers, m.code? = none := by
  refine ho.forall_markers (fun h => ?_) fun _ => rfl
  cases h with
  | code hd => simp [Dialect.isUltiSnips] at hd
  | _ => rfl

/-- What is written for a readable row without code tells that row. -/
theorem Outline.ReadableRow.tells_sourceAll {d : Dialect} {row : List Outline}
    (h : ReadableRow d row) (hcode : ∀ m ∈ markersAll row, m.code? = none) :
    Event.Tells (Event.ofSource d (sourceAll d row)) [] row := by
  have hreads : ∀ o ∈ row, ReadsBack d o := fun o ho =>
    (h.readable o ho).readsBack fun m hm => hcode m (mem_markersAll.2 ⟨o, ho, hm⟩)
  obtain ⟨es, hes, hread⟩ := rowReadsBack h.readable hreads h.separate [] breaks_nil
  rw [List.append_nil, lex_nil] at hread
  rw [Event.ofSource, Token.ofSource, hread.elements]
  exact hes [] (by simp)

/-- A tree that is written and read again shows what it showed, if there is no code in it. -/
theorem Tree.outline_ofSource_source {d : Dialect} {source : String} {row : List Outline}
    (h : Outline.ReadableRow d row) (htells : Event.Tells (Event.ofSource d source) [] row)
    (hcode : ∀ m ∈ Outline.markersAll row, m.code? = none) (i j : Nat) :
    (ofSource j d (ofSource i d source).source).outline = (ofSource i d source).outline := by
  rw [source_ofSource i htells, outline_ofSource j (h.tells_sourceAll hcode),
    outline_ofSource i htells]

/-- Every TextMate source: the tree of what is written for its tree is the same tree. The outlines
are equal, and they leave nothing of the two trees out. -/
theorem textMate_round_trip (i j : Nat) (source : String) :
    let t := Tree.ofSource i .textMate source
    let u := Tree.ofSource j .textMate t.source
    u.outline = t.outline ∧ t.Shows t.root t.outline ∧ u.Shows u.root u.outline := by
  intro t u
  obtain ⟨row, hrow, htells⟩ := readable_ofSource .textMate source
  have hcode : ∀ m ∈ Outline.markersAll row, m.code? = none := by
    intro m hm
    obtain ⟨o, ho, hmo⟩ := Outline.mem_markersAll.1 hm
    exact (hrow.readable o ho).code?_eq_none m hmo
  exact ⟨Tree.outline_ofSource_source hrow htells hcode i j,
    Tree.shows_outline_ofSource i .textMate source,
    Tree.shows_outline_ofSource j .textMate t.source⟩

/-- Every UltiSnips source without code: the tree of what is written for its tree is the same tree.
The outlines are equal, and they leave nothing of the two trees out. -/
theorem ultiSnips_round_trip (i j : Nat) (source : String)
    (hcode : (Tree.ofSource i .ultiSnips source).hasCode = false) :
    let t := Tree.ofSource i .ultiSnips source
    let u := Tree.ofSource j .ultiSnips t.source
    u.outline = t.outline ∧ t.Shows t.root t.outline ∧ u.Shows u.root u.outline := by
  intro t u
  obtain ⟨row, hrow, htells⟩ := readable_ofSource .ultiSnips source
  have hcodes := Tree.code?_eq_none_of_hasCode htells hcode
  exact ⟨Tree.outline_ofSource_source hrow htells hcodes i j,
    Tree.shows_outline_ofSource i .ultiSnips source,
    Tree.shows_outline_ofSource j .ultiSnips t.source⟩

/-- A backtick that nothing closes begins no code. -/
theorem ultiSnips_round_trip_open_backtick :
    (Tree.ofSource 0 .ultiSnips "$\x7b1:`a$\x7b2:b\x7d\x7d$1").hasCode = false ∧
      let t := Tree.ofSource 0 .ultiSnips "$\x7b1:`a$\x7b2:b\x7d\x7d$1"
      let u := Tree.ofSource 1 .ultiSnips t.source
      u.outline = t.outline ∧ t.Shows t.root t.outline ∧ u.Shows u.root u.outline := by
  have hcode : (Tree.ofSource 0 .ultiSnips "$\x7b1:`a$\x7b2:b\x7d\x7d$1").hasCode = false := by
    cbv
  exact ⟨hcode, ultiSnips_round_trip 0 1 _ hcode⟩

end TabStop
