import TabStop.Proofs.Source.Reading
import TabStop.Snippet

/-!
# Escaped text in a source

A text that has been escaped is read as the text, wherever it stands in a TextMate source: in front
of any other source, or as the default of a tab stop. What stands after it is read as if it stood
alone.

The last token of an escaped text may go on in what stands after it. But that part of a source holds
no mark, and could have been escaped with the text: so the source is cut where a mark comes first.
-/

namespace TabStop

open Token Grammar

namespace Outline

/-! ## Text in front of a row -/

/-- A row with text in front of it, joined to the text that it begins with if there is one. -/
def prependText (s : String) (row : List Outline) : List Outline :=
  if s.isEmpty then row
  else
    match row with
    | node (.text r) cs :: rest => node (.text (s ++ r)) cs :: rest
    | row => node (.text s) [] :: row

theorem prependText_empty (row : List Outline) : prependText "" row = row := by simp [prependText]

theorem prependText_append {s : String} {row : List Outline} (hrow : row ≠ []) (os : List Outline) :
    prependText s (row ++ os) = prependText s row ++ os := by
  cases row with
  | nil => exact absurd rfl hrow
  | cons o row =>
    obtain ⟨m, cs⟩ := o
    cases m <;> by_cases hs : s.isEmpty <;> simp [prependText, hs]

theorem prependText_of_isNode {s : String} (hs : s ≠ "") {row : List Outline}
    (hrow : ∀ o ∈ row.head?, o.IsNode) : prependText s row = node (.text s) [] :: row := by
  cases row with
  | nil => simp [prependText, hs]
  | cons o row =>
    obtain ⟨m, cs⟩ := o
    cases m with
    | text r => simp [IsNode, marker, Marker.text?] at hrow
    | _ => simp [prependText, hs]

theorem textAll_prependText (s : String) (row : List Outline) :
    textAll (prependText s row) = s ++ textAll row := by
  by_cases hs : s = ""
  · simp [hs, prependText_empty]
  cases row with
  | nil => simp [prependText, hs, textAll, text, Marker.ownText?]
  | cons o row =>
    obtain ⟨m, cs⟩ := o
    cases m <;> simp [prependText, hs, textAll, text, Marker.ownText?, String.append_assoc]

/-- Text behind a row goes to the end of it. -/
theorem addText_append_row {row : List Outline} (hrow : row ≠ []) (os : List Outline) (u : String) :
    addText (os ++ row) u = os ++ addText row u := by
  obtain ⟨init, o, rfl⟩ := (List.eq_nil_or_concat row).resolve_left hrow
  by_cases hu : u = ""
  · simp [hu, addText_empty]
  obtain ⟨m, cs⟩ := o
  cases m <;> simp [addText, hu, ← List.append_assoc]

/-- A text goes in front of a row, and another behind it. -/
theorem addText_prependText (s u : String) (row : List Outline) :
    addText (prependText s row) u = prependText s (addText row u) := by
  by_cases hs : s = ""
  · simp [hs, prependText_empty]
  by_cases hu : u = ""
  · simp [hu, addText_empty]
  -- Both ends meet only in a row of at most one node
  match row with
  | [] => simp [prependText, addText, hs, hu]
  | [.node m cs] => cases m <;> simp [prependText, addText, hs, hu, String.append_assoc]
  | o :: p :: row =>
    have hadd (os : List Outline) := addText_append_row (List.cons_ne_nil p row) os u
    have hfront (os : List Outline) := prependText_append (s := s) (List.cons_ne_nil o []) os
    calc addText (prependText s ([o] ++ p :: row)) u
        = prependText s [o] ++ addText (p :: row) u := by rw [hfront, hadd]
      _ = prependText s (addText ([o] ++ p :: row) u) := by rw [hadd, hfront]

theorem put_prependText (s : String) (row : List Outline) (o : Outline) :
    put (prependText s row) o = prependText s (put row o) := by
  rw [put, put]
  split
  next u _ => exact addText_prependText s u row
  next ho =>
    cases row with
    | nil =>
      by_cases hs : s = ""
      · simp [hs, prependText_empty]
      · have : ∀ p ∈ [o].head?, p.IsNode := by
          simpa using show o.IsNode from ho
        rw [List.nil_append, prependText_of_isNode hs this]
        simp [prependText, hs]
    | cons p row => exact (prependText_append (by simp) [o]).symm

theorem foldl_put_prependText (s : String) (os row : List Outline) :
    os.foldl put (prependText s row) = prependText s (os.foldl put row) := by
  induction os generalizing row with
  | nil => rfl
  | cons o os ih => rw [List.foldl_cons, List.foldl_cons, put_prependText, ih]

theorem IsNode.addText_cons {o : Outline} (ho : o.IsNode) (row : List Outline) (u : String) :
    addText (o :: row) u = o :: addText row u := by
  by_cases hu : u = ""
  · simp [hu, addText_empty]
  cases row with
  | nil => simpa [addText_nil hu] using addText_node hu [] ho
  | cons p row => exact addText_append_row (List.cons_ne_nil p row) [o] u

/-- What comes behind a node leaves it as it is. -/
theorem IsNode.foldl_put_cons {o : Outline} (ho : o.IsNode) (os row : List Outline) :
    os.foldl put (o :: row) = o :: os.foldl put row := by
  induction os generalizing row with
  | nil => rfl
  | cons p os ih =>
    have hput : put (o :: row) p = o :: put row p := by
      rw [put, put]
      split
      next u _ => exact ho.addText_cons row u
      next => rfl
    rw [List.foldl_cons, List.foldl_cons, hput, ih]

end Outline

namespace Grammar

open Event

variable {d : Dialect}

/-- Elements up to some token are read first, and then those after it. -/
theorem ReadsElements.elements_eq {ts rest : List Token} {es : List Event}
    (h : ReadsElements d ts es rest) : Grammar.elements d ts = es ++ Grammar.elements d rest := by
  induction h with
  | nil => rfl
  | cons _ he _ ih => rw [elements_of_takes he, ih, List.append_assoc]

/-- The elements behind a text that is broken off are put behind it. -/
theorem tells_escapeText (s : String) {cs : List Char} (hcs : Breaks cs) {os : List Outline}
    (hos : Gives (elements d (lex cs)) os) (row : List Outline) :
    Tells (elements d (lex ((escapeText d s).toList ++ cs))) row
      (os.foldl Outline.put (Outline.addText row s)) := by
  obtain ⟨es, hes, hread⟩ := readsElements_text (d := d) s hcs
  rw [hread.elements_eq]
  exact (hes row).append (hos _)

/-- A source begins with characters that are no marks, and what follows breaks them off. -/
theorem exists_breaks (cs : List Char) :
    ∃ word rest, cs = word ++ rest ∧ (∀ c ∈ word, (Mark.ofChar? c).isNone) ∧ Breaks rest := by
  refine ⟨_, _, (List.takeWhile_append_dropWhile (p := fun c => (Mark.ofChar? c).isNone)).symm,
    fun c hc => List.all_eq_true.1 List.all_takeWhile c hc, fun c hc => ?_⟩
  have := List.head?_dropWhile_not (fun c => (Mark.ofChar? c).isNone) cs
  rw [Option.mem_def.1 hc] at this
  simpa using this

end Grammar

namespace Tree

variable (i j : Nat) (d : Dialect) (source : String)

theorem children_ofSource {d : Dialect} {source : String} {row : List Outline} (i : Nat)
    (h : Event.Tells (Event.ofSource d source) [] row) :
    (ofSource i d source).outline.children = row := by
  rw [outline_ofSource i h]
  rfl

/-- The tree of a source shows the text of its outline. -/
theorem text_eq_textAll : (ofSource i d source).text =
    Outline.textAll (ofSource i d source).outline.children := by
  obtain ⟨row, -, h⟩ := readable_ofSource d source
  rw [text_ofSource i h, children_ofSource i h]

end Tree

namespace Snippet

open TabStop.Tree Outline Event

theorem isSpecial_eq : isSpecial = Dialect.isSpecial .textMate := by
  funext c
  simp only [isSpecial, Dialect.isSpecial, Dialect.isUltiSnips, Bool.false_and, Bool.or_false]
  ac_rfl

theorem escape_eq (s : String) : escape s = escapeText .textMate s := by
  rw [escape, escapeText, isSpecial_eq]

/-! ## In front of a source -/

/-- A source behind an escaped text is read as if it stood alone, with the text in front. -/
theorem outline_escape_append (i j : Nat) (v r : String) :
    (ofSource i .textMate (escape v ++ r)).outline =
      .node .root (prependText v (ofSource j .textMate r).outline.children) := by
  obtain ⟨word, rest, hr, hword, hrest⟩ := exists_breaks r.toList
  obtain ⟨os, hos, -⟩ := showsTokens (d := .textMate) _ (sound_lex rest)
  -- The source is itself an escaped text that is broken off, and so are both together
  have hplain : escapeChars (Dialect.isSpecial .textMate) word = word :=
    escapeChars_of_not_special fun c hc => Bool.eq_false_iff.2 fun hspecial => by
      have := (escaping_text .textMate).isMark c hspecial
      simp [Option.isNone_iff_eq_none.1 (hword c hc)] at this
  have hsource : Tells (Event.ofSource .textMate r) []
      (os.foldl put (addText [] (String.ofList word))) := by
    have := tells_escapeText (String.ofList word) hrest hos []
    rwa [escapeText, toList_escapeWhere, String.toList_ofList, hplain, ← hr] at this
  have hboth : Tells (Event.ofSource .textMate (escape v ++ r)) []
      (os.foldl put (addText [] (v ++ String.ofList word))) := by
    have := tells_escapeText (v ++ String.ofList word) hrest hos []
    rwa [escapeText, toList_escapeWhere, String.toList_append, String.toList_ofList,
      escapeChars_append, hplain, List.append_assoc, ← hr, ← toList_escapeWhere, ← escapeText,
      ← escape_eq, ← String.toList_append] at this
  have hfront : addText [] (v ++ String.ofList word) =
      prependText v (addText [] (String.ofList word)) := by
    have : addText [] v = prependText v [] := by simp [addText, prependText]
    rw [← addText_append, this, addText_prependText]
  rw [outline_ofSource i hboth, children_ofSource j hsource, hfront, foldl_put_prependText]

/-! ## As a default -/

/-- An escaped text is the default of a tab stop as it stands there, and what comes behind the tab
stop is read as if it stood alone. -/
theorem outline_default_append (i j : Nat) {n : Nat} (hn : n < indexBound) (v r : String) :
    (ofSource i .textMate ("$\x7b" ++ toString n ++ ":" ++ escape v ++ "\x7d" ++ r)).outline =
      .node .root (.node (.placeholder { index := .ofNat n })
          (if v = "" then [] else [.node (.text v) []]) ::
        (ofSource j .textMate r).outline.children) := by
  obtain ⟨os, hos, -⟩ := showsTokens (d := .textMate) _ (sound_lex r.toList)
  obtain ⟨es, hes, hread⟩ :=
    readsElements_text (d := .textMate) v (breaks_mark .braceClose r.toList)
  have hsource : Tells (Event.ofSource .textMate r) [] (os.foldl put []) := hos []
  -- The value is read as text up to the brace, which closes the default
  rw [lex_mark] at hread
  have hdefault := ReadsElements.one (by simp) (takes_default (names_toString hn) hread)
  have hlex : Token.ofSource ("$\x7b" ++ toString n ++ ":" ++ escape v ++ "\x7d" ++ r) =
      mark .dollar :: mark .braceOpen :: digits (toString n) :: mark .colon ::
        lex ((escapeText .textMate v).toList ++ Mark.braceClose.char :: r.toList) := by
    rw [← lex_mark, ← lex_braced (wellFormed_digits n) (breaks_mark .colon _), ← escape_eq,
      Token.ofSource]
    simp [Mark.char, Token.text]
  have hall : Tells (Event.ofSource .textMate
      ("$\x7b" ++ toString n ++ ":" ++ escape v ++ "\x7d" ++ r)) []
      (os.foldl put [.node (.placeholder { index := .ofNat n }) (addText [] v)]) := by
    rw [Event.ofSource, hlex, hdefault.elements_eq]
    exact (tells_node _ (hes []) []).append (hos _)
  -- What follows is put behind a node, so it is read as it would be alone
  have hnode : (node (.placeholder { index := .ofNat n }) (addText [] v)).IsNode := rfl
  have htext : addText [] v = if v = "" then [] else [node (.text v) []] := by simp [addText]
  rw [outline_ofSource i hall, children_ofSource j hsource, hnode.foldl_put_cons, htext]

/-! ## What an escaped text does -/

/-- For all texts, sources behind them and indexes: the tree of the escaped text and the source is
the tree of the source with the text in front, so it shows the text and then what the source shows;
and with the escaped text as the default of a tab stop, that text is all that the tab stop holds,
and the nodes of the source follow. The outlines leave nothing of the trees out. -/
theorem escape_embeds (i j k : Nat) (v r : String) (n : UInt32) :
    (ofSource i .textMate (escape v ++ r)).outline =
        .node .root (prependText v (ofSource j .textMate r).outline.children) ∧
      let t := ofSource i .textMate (escape v ++ r)
      let u := ofSource j .textMate r
      let w := ofSource k .textMate
        ("$\x7b" ++ toString n.toNat ++ ":" ++ escape v ++ "\x7d" ++ r)
      t.text = v ++ u.text ∧
        w.outline = .node .root
          (.node (.placeholder { index := .ofNat n.toNat })
              (if v = "" then [] else [.node (.text v) []]) ::
            u.outline.children) ∧
        t.Shows t.root t.outline ∧ u.Shows u.root u.outline ∧ w.Shows w.root w.outline := by
  -- In front of the rest the value is text, which may join a text there
  have hfront := outline_escape_append i j v r
  have htext : (ofSource i .textMate (escape v ++ r)).text = v ++ (ofSource j .textMate r).text := by
    rw [text_eq_textAll, hfront, text_eq_textAll]
    exact textAll_prependText v _
  exact ⟨hfront, htext, outline_default_append k j n.toNat_lt v r, shows_outline_ofSource i _ _,
    shows_outline_ofSource j _ _, shows_outline_ofSource k _ _⟩

end Snippet

end TabStop
