import TabStop.Proofs.Source.RoundTrip

/-!
# References with two branches

A reference to a group is written with its branches between signs: the one for a match goes up to a
colon if another one comes behind it, and the last one goes up to the closing brace. A brace is
escaped in a branch, a colon is not, and cannot be. So a reference with two branches is read as
another one if there is a colon in the first of them.
-/

namespace TabStop

open Token Grammar

namespace FormatString

variable {f g : FormatString} {i : Nat} {a b : String}

/-- The reference that is read where `f` is written: the first one of two branches ends at its first
colon, and there is no reference if it begins with one. -/
def asRead? (f : FormatString) : Option FormatString :=
  match f.ifText, f.elseText with
  | some a, some b =>
    if ':' ∈ a.toList then
      let before := a.toList.takeWhile (· ≠ ':')
      let behind := (a.toList.dropWhile (· ≠ ':')).tail
      if before = [] then none
      else some { f with
        ifText := some (String.ofList before)
        elseText := some (String.ofList behind ++ ":" ++ b) }
    else some f
  | _, _ => some f

/-- A reference without a conversion, whose branches are not empty. -/
structure IsBranching (f : FormatString) : Prop where
  index_lt : f.index < groupBound
  shorthand : f.shorthand = none
  ifText : f.ifText ≠ some ""
  elseText : f.elseText ≠ some ""

/-- There are two branches, with a colon in the first of them. -/
def HasColon (f : FormatString) : Prop :=
  ∃ a b, f.ifText = some a ∧ f.elseText = some b ∧ ':' ∈ a.toList

/-! ## What is written -/

theorem escapeBranch_append (a b : String) :
    escapeBranch (a ++ b) = escapeBranch a ++ escapeBranch b := by
  apply String.toList_injective
  simp [escapeBranch, escapeWith]

/-- A colon is written as it is. -/
theorem escapeBranch_colon : escapeBranch ":" = ":" := by decide

/-- The branch for a match, where it is taken for one that ends at its first colon. -/
theorem asRead?_of_colon {before behind : List Char} (hf : f.ifText = some a)
    (hb : f.elseText = some b) (ha : a.toList = before ++ ':' :: behind) (hbefore : ':' ∉ before) :
    f.asRead? = if before = [] then none else some { f with
      ifText := some (String.ofList before)
      elseText := some (String.ofList behind ++ ":" ++ b) } := by
  have hplain : ∀ c ∈ before, decide (c ≠ ':') = true := by
    intro c hc
    apply decide_eq_true
    rintro rfl
    exact hbefore hc
  -- The text for a match ends at its first colon
  have htake : a.toList.takeWhile (· ≠ ':') = before := by
    rw [ha, List.takeWhile_append_of_pos hplain]
    simp
  have hdrop : (a.toList.dropWhile (· ≠ ':')).tail = behind := by
    rw [ha, List.dropWhile_append_of_pos hplain]
    simp
  have hmem : ':' ∈ a.toList := by simp [ha]
  simp only [asRead?, hf, hb, if_pos hmem, htake, hdrop]

theorem asRead?_of_not_hasColon (hf : ¬f.HasColon) : f.asRead? = some f := by
  unfold asRead?
  split
  next a b ha hb => rw [if_neg fun hmem => hf ⟨a, b, ha, hb, hmem⟩]
  · rfl

/-- The first branch with a colon, and its parts before the first colon and behind it. -/
theorem HasColon.split (hf : f.HasColon) : ∃ a b before behind, f.ifText = some a ∧
    f.elseText = some b ∧ a.toList = before ++ ':' :: behind ∧ ':' ∉ before := by
  obtain ⟨a, b, ha, hb, hmem⟩ := hf
  obtain ⟨before, behind, heq, hnot⟩ := List.eq_append_cons_of_mem hmem
  exact ⟨a, b, before, behind, ha, hb, heq, hnot⟩

/-- A reference is taken for another one, or for none, exactly if there is a colon in the first one of
two branches. -/
theorem asRead?_eq_self_iff : f.asRead? = some f ↔ ¬f.HasColon := by
  constructor
  · intro hself hcolon
    obtain ⟨a, b, before, behind, ha, hb, heq, hnot⟩ := hcolon.split
    rw [asRead?_of_colon ha hb heq hnot] at hself
    split at hself
    · simp at hself
    · -- The first branch would have no colon
      have hsame := congrArg ifText (Option.some.inj hself)
      rw [ha] at hsame
      have htext := congrArg String.toList (Option.some.inj hsame)
      rw [heq, String.toList_ofList] at htext
      simpa using congrArg List.length htext
  · exact asRead?_of_not_hasColon

/-- What is read is written in the same way. -/
theorem source_of_asRead? (hf : f.IsBranching) (hg : f.asRead? = some g) : g.source = f.source := by
  by_cases hcolon : f.HasColon
  · obtain ⟨a, b, before, behind, ha, hb, heq, hnot⟩ := hcolon.split
    rw [asRead?_of_colon ha hb heq hnot] at hg
    split at hg
    · simp at hg
    · obtain rfl := Option.some.inj hg
      have htext : a = String.ofList before ++ (":" ++ String.ofList behind) := by
        apply String.toList_injective
        simp [heq]
      simp only [source, suffix, hf.shorthand, ha, hb, htext, escapeBranch_append,
        escapeBranch_colon, String.append_assoc]
  · rw [asRead?_of_not_hasColon hcolon] at hg
    rw [Option.some.inj hg]

/-- What is read can be read. -/
theorem readable_of_asRead? (hf : f.IsBranching) (hg : f.asRead? = some g) :
    ReadableFormat .textMate g := by
  obtain ⟨hindex, hshort, hif, helse⟩ := hf
  by_cases hcolon : f.HasColon
  · obtain ⟨a, b, before, behind, ha, hb, heq, hnot⟩ := hcolon.split
    rw [asRead?_of_colon ha hb heq hnot] at hg
    split at hg
    · simp at hg
    next hne =>
      obtain rfl := Option.some.inj hg
      rw [hshort]
      exact .both hindex rfl (by simpa using hne) (by simpa using hnot) (by simp)
  · rw [asRead?_of_not_hasColon hcolon] at hg
    obtain rfl := Option.some.inj hg
    obtain ⟨i, shorthand, ifText, elseText⟩ := f
    obtain rfl : shorthand = none := hshort
    -- One case for each of the ways in which a reference is written
    cases ifText with
    | none =>
      cases elseText with
      | none => exact .plain hindex
      | some b => exact .elseText hindex rfl fun h => helse (congrArg some h)
    | some a =>
      cases elseText with
      | none => exact .ifText hindex rfl fun h => hif (congrArg some h)
      | some b =>
        exact .both hindex rfl (fun h => hif (congrArg some h))
          (fun hmem => hcolon ⟨a, b, rfl, rfl, hmem⟩) fun h => helse (congrArg some h)

/-! ## What is read -/

theorem toList_source (f : FormatString) : f.source.toList =
    '$' :: '\x7b' :: ((toString f.index).toList ++ (f.suffix.toList ++ ['\x7d'])) := by
  simp [source, String.toList_append]

/-- A reference is read from the way it is written, if its index is followed by its suffix. -/
theorem value_formatString_readable (hg : ReadableFormat .textMate g) (rest : List Char) :
    (formatString .textMate (lex (g.source.toList.tail ++ rest))).map (·.value) = some g := by
  obtain ⟨h, hr⟩ := takes_formatString hg rest
  have htail : g.source.toList.tail ++ rest =
      '\x7b' :: ((toString g.index).toList ++ (g.suffix.toList ++ '\x7d' :: rest)) := by
    simp [toList_source]
  rw [htail, hr]
  rfl

/-- Where a branch begins with the colon at which it ends, there is no reference. -/
theorem formatString_leadingColon (hf : f.IsBranching) (ha : f.ifText = some a)
    (hb : f.elseText = some b) {behind : List Char} (hcolon : a.toList = ':' :: behind)
    (rest : List Char) : formatString .textMate (lex (f.source.toList.tail ++ rest)) = none := by
  have htext : a = ":" ++ String.ofList behind := by
    apply String.toList_injective
    simp [hcolon]
  let more := (escapeBranch (String.ofList behind)).toList ++ ':' ::
    ((escapeBranch b).toList ++ '\x7d' :: rest)
  have hchars : f.source.toList.tail ++ rest =
      '\x7b' :: ((toString f.index).toList ++ ':' :: '?' :: ':' :: more) := by
    simp [toList_source, suffix, hf.shorthand, ha, hb, htext, escapeBranch_append,
      escapeBranch_colon, more]
  have hlex : lex ('\x7b' :: ((toString f.index).toList ++ ':' :: '?' :: ':' :: more)) =
      mark .braceOpen :: digits (toString f.index) :: mark .colon :: mark .question ::
        mark .colon :: lex more := by
    rw [← lex_mark .colon more, ← lex_mark .question, ← lex_mark .colon,
      ← lex_number _ (by simp [isDigit, Mark.char]), ← lex_mark]
    rfl
  -- There is a colon right behind the question mark, and no text may be empty
  have hempty : until? .colon (mark .colon :: lex more) = none := by
    simp [until?, branchText, Taken.one]
  rw [hchars, hlex, formatString, indexBelow?_toString hf.index_lt]
  simp [formatRest, formatSuffix, hempty, Dialect.isUltiSnips]

/-- What is read where a reference is written, whatever comes behind it. -/
theorem value_formatString (hf : f.IsBranching) (rest : List Char) :
    (formatString .textMate (lex (f.source.toList.tail ++ rest))).map (·.value) = f.asRead? := by
  cases hg : f.asRead? with
  | some g =>
    rw [← source_of_asRead? hf hg]
    exact value_formatString_readable (readable_of_asRead? hf hg) rest
  | none =>
    by_cases hcolon : f.HasColon
    · obtain ⟨a, b, before, behind, ha, hb, heq, hnot⟩ := hcolon.split
      rw [asRead?_of_colon ha hb heq hnot] at hg
      have hnil : before = [] := by
        by_contra hne
        simp [hne] at hg
      rw [formatString_leadingColon hf ha hb (by rw [heq, hnil]; rfl) rest]
      rfl
    · rw [asRead?_of_not_hasColon hcolon] at hg
      simp at hg

/-! ## In a transform of a variable -/

/-- A source of a variable with a transform that replaces an `x` by a reference to a group. -/
def inTransform (f : FormatString) : String := "$\x7bv/x/" ++ f.source ++ "/\x7d"

/-- The transform that replaces the first `x` by what a reference stands for. -/
def forX (f : FormatString) : Transform :=
  ⟨"x", {}, [.format f], (Regex.compile? ({} : TransformFlags).forPattern "x").get (by cbv),
    by simp⟩

/-- The outline of a source with nothing in it but a variable of a given transform. -/
def varOutline (tr : Transform) : Outline :=
  .node .root [.node (.var { name := "v", transform := some tr }) []]

theorem readable_forX (hf : ReadableFormat .textMate f) : ReadableTransform .textMate f.forX where
  pattern := by simp [forX, PatternWritable]
  pieces := ⟨hf, by simp [Piece.IsText], trivial⟩

theorem sourceAll_forX (f : FormatString) : Outline.sourceAll .textMate
    [.node (.var { name := "v", transform := some f.forX }) []] = f.inTransform := by
  have hpattern : Transform.patternSource "x" = "x" := by decide
  have hflags : ({} : TransformFlags).source = "" := by decide
  apply String.toList_injective
  simp [Outline.sourceAll, Outline.source, Outline.content, Content.source, Transform.source, forX,
    hpattern, hflags, Piece.sourceAll, Piece.source, inTransform, braced]

/-- A reference that can be read is read in the transform. -/
theorem outline_inTransform (hf : ReadableFormat .textMate f) (i : Nat) :
    (Tree.ofSource i .textMate f.inTransform).outline = varOutline f.forX := by
  have hname : (word "v").WellFormed :=
    ⟨'v', [], rfl, by decide, by simp⟩
  have hrow : Outline.ReadableRow .textMate
      [.node (.var { name := "v", transform := some f.forX }) []] := by
    refine ⟨fun o ho => ?_, by simp [Outline.Separate]⟩
    rw [List.mem_singleton.1 ho]
    exact .varTransform hname rfl (readable_forX hf)
  have htells := hrow.tells_sourceAll (by simp [Outline.markersAll, Outline.markers, Marker.code?])
  rw [sourceAll_forX] at htells
  exact Tree.outline_ofSource i htells

/-- References in the transforms of a document can be read. -/
theorem readable_of_outline {tr : Transform} {source : String}
    (h : (Tree.ofSource i .textMate source).outline = varOutline tr)
    (hpieces : tr.pieces = [.format f]) : ReadableFormat .textMate f := by
  obtain ⟨row, hrow, htells⟩ := readable_ofSource .textMate source
  rw [Tree.outline_ofSource i htells] at h
  obtain rfl : row = [.node (.var { name := "v", transform := some tr }) []] := by
    injection h
  have ho := hrow.readable _ (List.mem_singleton_self _)
  cases ho with
  | varTransform _ _ htr =>
    have hp := htr.pieces
    rw [hpieces] at hp
    exact hp.1

/-- A reference is read as itself from the way it is written, unless there is a colon in the first one
of two branches: then it is read as another one, or not at all. -/
theorem inTransform_reads_iff (hf : f.IsBranching) (i : Nat) :
    (∀ rest, (formatString .textMate (lex (f.source.toList.tail ++ rest))).map (·.value) =
      f.asRead?) ∧
    (∀ g, f.asRead? = some g →
      (Tree.ofSource i .textMate f.inTransform).outline = varOutline g.forX) ∧
    ((∃ tr, (Tree.ofSource i .textMate f.inTransform).outline = varOutline tr ∧
      tr.pieces = [.format f]) ↔ ¬f.HasColon) := by
  have hreads : ∀ g, f.asRead? = some g →
      (Tree.ofSource i .textMate f.inTransform).outline = varOutline g.forX := by
    intro g hg
    have hsame : f.inTransform = g.inTransform := by
      rw [inTransform, inTransform, source_of_asRead? hf hg]
    rw [hsame]
    exact outline_inTransform (readable_of_asRead? hf hg) i
  refine ⟨value_formatString hf, hreads, ?_, fun hcolon => ?_⟩
  · rintro ⟨tr, houtline, hpieces⟩ ⟨a, b, ha, hb, hmem⟩
    -- What is read of a document has no colon there
    cases readable_of_outline houtline hpieces with
    | both _ _ _ hnot _ =>
      obtain rfl := Option.some.inj ha
      exact hnot hmem
    | _ => simp at ha hb
  · exact ⟨f.forX, hreads f (asRead?_of_not_hasColon hcolon), rfl⟩

/-- A reference with a colon in the branch for a match. -/
def coloned : FormatString := { index := 1, ifText := some "a:b", elseText := some "c" }

/-- The first branch is taken to end at its colon. -/
theorem inTransform_reads_iff_coloned :
    coloned.inTransform = "$\x7bv/x/$\x7b1:?a:b:c\x7d/\x7d" ∧
      (Tree.ofSource 0 .textMate coloned.inTransform).outline =
        varOutline (forX { index := 1, ifText := some "a", elseText := some "b:c" }) ∧
      ¬∃ tr, (Tree.ofSource 0 .textMate coloned.inTransform).outline = varOutline tr ∧
        tr.pieces = [.format coloned] := by
  have hbranching : coloned.IsBranching :=
    ⟨by decide, rfl, by decide, by decide⟩
  obtain ⟨-, hreads, hself⟩ := inTransform_reads_iff hbranching 0
  refine ⟨by decide, hreads _ (by decide), fun h => hself.1 h ⟨"a:b", "c", rfl, rfl, by decide⟩⟩

end FormatString

end TabStop
