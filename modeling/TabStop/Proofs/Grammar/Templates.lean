import TabStop.Proofs.Grammar.TransformParts

/-!
# Transforms read back

The pieces that a template is read as are written so that they read as the same pieces. Text is read
token by token and joined afterwards, and the letter of a case directive is read together with the
word that it begins, so a template is followed as a row of readings whose pieces are yet to be
joined.
-/

namespace TabStop

open Token Grammar

namespace Piece

/-! ## Joining texts -/

/-- Whether a piece is literal text. -/
def IsText : Piece → Prop
  | text _ => True
  | _ => False

/-- Pieces with text before them. -/
def addText (s : String) (ps : List Piece) : List Piece :=
  if s = "" then ps
  else
    match ps with
    | text r :: ps => text (s ++ r) :: ps
    | ps => text s :: ps

theorem addText_empty (ps : List Piece) : addText "" ps = ps := if_pos rfl

theorem addText_text {s : String} (hs : s ≠ "") (r : String) (ps : List Piece) :
    addText s (text r :: ps) = text (s ++ r) :: ps := if_neg hs

theorem addText_of_not_isText {s : String} (hs : s ≠ "") {ps : List Piece}
    (hps : ∀ p ∈ ps.head?, ¬p.IsText) : addText s ps = text s :: ps := by
  unfold addText
  rw [if_neg hs]
  cases ps with
  | nil => rfl
  | cons p ps =>
    cases p with
    | text r => exact absurd trivial (hps (text r) rfl)
    | _ => rfl

theorem addText_append (s r : String) (ps : List Piece) :
    addText s (addText r ps) = addText (s ++ r) ps := by
  by_cases hs : s = ""
  · subst hs; simp [addText_empty]
  by_cases hr : r = ""
  · subst hr; simp [addText_empty]
  have hsr : s ++ r ≠ "" := by simp [hs]
  -- A text is joined with `ps` only if a text comes first there
  by_cases hps : ∀ p ∈ ps.head?, ¬p.IsText
  · rw [addText_of_not_isText hr hps, addText_text hs, addText_of_not_isText hsr hps]
  · obtain ⟨q, ps', rfl⟩ : ∃ q ps', ps = text q :: ps' := by
      cases ps with
      | nil => simp at hps
      | cons p ps =>
        cases p with
        | text q => exact ⟨q, ps, rfl⟩
        | _ => simp [IsText] at hps
    rw [addText_text hr, addText_text hs, addText_text hsr, String.append_assoc]

theorem mergeText_text {s : String} (hs : s ≠ "") (ps : List Piece) :
    mergeText (text s :: ps) = addText s (mergeText ps) := by
  cases h : mergeText ps with
  | nil => simp [mergeText, addText, hs, h]
  | cons p qs => cases p <;> simp [mergeText, addText, hs, h]

theorem mergeText_cons {p : Piece} (hp : ¬p.IsText) (ps : List Piece) :
    mergeText (p :: ps) = p :: mergeText ps := by
  cases p with
  | text s => exact absurd trivial hp
  | _ => simp [mergeText]

/-- Pieces that are joined to a text, and to what comes after them. -/
def Spells (ps : List Piece) (s : String) : Prop :=
  ∀ qs, mergeText (ps ++ qs) = addText s (mergeText qs)

theorem Spells.nil : Spells [] "" := fun qs => (addText_empty (mergeText qs)).symm

theorem Spells.cons {s r : String} {ps : List Piece} (hs : s ≠ "") (h : Spells ps r) :
    Spells (text s :: ps) (s ++ r) := by
  intro qs
  rw [List.cons_append, mergeText_text hs, h, addText_append]

/-! ## The normal form -/

mutual

/-- Pieces that are read from source. -/
def Readable (d : Dialect) : Piece → Prop
  | text s => s ≠ ""
  | directive _ => d.isUltiSnips
  | format f => ReadableFormat d f
  | textCondition i _ _ => d.isUltiSnips ∧ i < groupBound
  | condition i a b =>
    d.isUltiSnips ∧ i < groupBound ∧ ReadableAll d a ∧ ReadableAll d b ∧
      ¬((plainText? a).isSome ∧ (plainText? b).isSome)

/-- Templates that are read from source: no text follows text. -/
def ReadableAll (d : Dialect) : List Piece → Prop
  | [] => True
  | p :: ps => Readable d p ∧ (p.IsText → ∀ q ∈ ps.head?, ¬q.IsText) ∧ ReadableAll d ps

end

theorem readableAll_addText {d : Dialect} {s : String} (hs : s ≠ "") {ps : List Piece}
    (h : ReadableAll d ps) : ReadableAll d (addText s ps) := by
  by_cases hps : ∀ p ∈ ps.head?, ¬p.IsText
  · rw [addText_of_not_isText hs hps]
    exact ⟨hs, fun _ => hps, h⟩
  · cases ps with
    | nil => simp at hps
    | cons p ps =>
      cases p with
      | text r =>
        rw [addText_text hs]
        exact ⟨by simp [hs, Readable], h.2⟩
      | _ => simp [IsText] at hps

/-- Pieces that are readable one by one make a readable template when texts are joined. -/
theorem readableAll_mergeText {d : Dialect} {ps : List Piece} (h : ∀ p ∈ ps, Readable d p) :
    ReadableAll d (mergeText ps) := by
  induction ps with
  | nil => trivial
  | cons p ps ih =>
    have ih := ih fun q hq => h q (List.mem_cons_of_mem _ hq)
    have hp := h p (List.mem_cons_self ..)
    by_cases ht : p.IsText
    · cases p with
      | text s =>
        rw [mergeText_text hp]
        exact readableAll_addText hp ih
      | _ => exact absurd ht (by simp [IsText])
    · rw [mergeText_cons ht]
      exact ⟨hp, fun h => absurd h ht, ih⟩

end Piece

namespace Grammar

open Piece

variable {d : Dialect} {ts us rest : List Token}

/-! ## What is read is readable -/

private theorem readable_backslash (t : Token) :
    ∀ p ∈ (Taken.one [Piece.text "\\"] t ts).value, Readable d p := by
  simp [Taken.one, Readable]

theorem readable_templateEscape (d : Dialect) (ts : List Token) :
    ∀ p ∈ (templateEscape d ts).value, Readable d p := by
  fun_cases templateEscape d ts with
  | case1 m rest hm =>
    simp only [templateEscape, hm]
    simp [Taken.cons, Taken.behind, Taken.one, Readable]
  | case2 m rest hm =>
    simp only [templateEscape, hm]
    exact readable_backslash _
  -- The rest of the word that the letter begins is text, if there is any
  | case3 w rest c cs hw hd directive hc more =>
    simp only [templateEscape, hw, hd, hc]
    cases cs with
    | nil => simp [Taken.cons, Taken.behind, Taken.one, Readable, hd]
    | cons c' cs' => simp [Taken.cons, Taken.behind, Taken.one, Readable, hd]
  | case4 w rest c cs hw hd hc =>
    simp only [templateEscape, hw, hd, hc]
    exact readable_backslash _
  | case5 w rest hw =>
    have : templateEscape d (word w :: rest) = .one [.text "\\"] _ _ := by
      rw [templateEscape]
      split
      next c cs hd hcs => exact (hw c cs hd hcs).elim
      next => rfl
    rw [this]
    exact readable_backslash _
  | case6 ts hm hw =>
    rw [templateEscape]
    · exact readable_backslash _
    · exact hm
    · exact hw

theorem readable_mkCondition {i : Nat} {a b : List Piece} (hd : d.isUltiSnips)
    (hi : i < groupBound) (ha : ReadableAll d a) (hb : ReadableAll d b) :
    Readable d (mkCondition i a b) := by
  unfold mkCondition
  split
  · exact ⟨hd, hi⟩
  next hplain =>
    refine ⟨hd, hi, ha, hb, fun h => ?_⟩
    obtain ⟨x, hx⟩ := Option.isSome_iff_exists.1 h.1
    obtain ⟨y, hy⟩ := Option.isSome_iff_exists.1 h.2
    exact hplain x y hx hy

mutual

theorem readable_piece {ts rest : List Token} {ps : List Piece} (hs : Sound ts)
    (h : Takes (piece d ts) ps rest) : ∀ p ∈ ps, Readable d p := by
  rw [piece.eq_def] at h
  split at h
  · simp at h
  next us =>
    obtain ⟨rfl, rfl⟩ := takes_some.1 h
    exact readable_templateEscape d us
  next us =>
    split at h
    -- A dollar sign begins a reference to a group, or else it is text
    next f hf =>
      obtain ⟨rfl, rfl⟩ := takes_some.1 h
      have hf := readableFormat_formatString hs.tail (takes_of_eq_some hf)
      simpa [Taken.cons, Taken.behind, Taken.map, Readable] using hf
    next =>
      obtain ⟨rfl, rfl⟩ := takes_some.1 h
      simp [Taken.one, Readable]
  next us =>
    split at h
    -- In UltiSnips a parenthesis begins a condition, or else it is text
    next hd =>
      split at h
      next c hc =>
        obtain ⟨rfl, rfl⟩ := takes_some.1 h
        have hc := readable_condition hd hs.tail (takes_of_eq_some hc)
        simpa [Taken.cons, Taken.behind, Taken.map] using hc
      next =>
        obtain ⟨rfl, rfl⟩ := takes_some.1 h
        simp [Taken.one, Readable]
    next =>
      obtain ⟨rfl, rfl⟩ := takes_some.1 h
      simp [Taken.one, Readable]
  next t us _ _ _ =>
    obtain ⟨rfl, rfl⟩ := takes_some.1 h
    simp [Taken.one, Readable, hs.head.text_ne_empty]
-- A piece is read from the same tokens as the branch that it is in, and what is in a piece from
-- fewer tokens than the piece
termination_by (ts.length, 1)

theorem readable_condition {ts rest : List Token} {p : Piece} (hd : d.isUltiSnips)
    (hs : Sound ts) (h : Takes (condition d ts) p rest) : Readable d p := by
  rw [condition.eq_def] at h
  split at h
  next ds us =>
    obtain ⟨i, hi, h⟩ : ∃ i, indexBelow? groupBound ds = some i ∧ _ := by
      cases hi : indexBelow? groupBound ds with
      | none => simp [hi] at h
      | some i => exact ⟨i, rfl, by simpa only [hi] using h⟩
    have hi := indexBelow?_eq_some hi
    obtain ⟨a, ha, h⟩ : ∃ a, branch d true us = some a ∧ _ := by
      cases ha : branch d true us with
      | none => simp [ha] at h
      | some a => exact ⟨a, rfl, by simpa only [ha] using h⟩
    -- The branch for a match comes first, then there may be one for no match behind a colon
    have hif := readableAll_mergeText (readable_branch hs.tail.tail.tail ha)
    simp only [Option.bind_eq_bind, Option.bind_some] at h
    split at h
    next more hmore =>
      obtain ⟨b, hb, h⟩ : ∃ b, branch d false more = some b ∧ _ := by
        cases hb : branch d false more with
        | none => simp [hb] at h
        | some b => exact ⟨b, rfl, by simpa only [hb] using h⟩
      have hlonger : more.length < us.length := by
        have := a.noLonger
        rw [hmore] at this
        exact this
      have hrest := hs.tail.tail.tail.of_suffix (suffix_branch ha)
      rw [hmore] at hrest
      have helse := readableAll_mergeText (readable_branch hrest.tail hb)
      simp only [Option.bind_some] at h
      split at h
      next after hafter =>
        obtain ⟨rfl, rfl⟩ := takes_some.1 h
        exact readable_mkCondition hd hi hif helse
      next => simp at h
    next after hafter =>
      obtain ⟨rfl, rfl⟩ := takes_some.1 h
      exact readable_mkCondition hd hi hif trivial
    next => simp at h
  next => simp at h
termination_by (ts.length, 0)
decreasing_by
  · subst_vars
    exact Prod.Lex.left _ _ (by simp only [List.length_cons]; omega)
  · subst_vars
    exact Prod.Lex.left _ _ (by simp only [List.length_cons]; omega)

theorem readable_branch {ts : List Token} {colon : Bool} {b : Branch ts} (hs : Sound ts)
    (h : branch d colon ts = some b) : ∀ p ∈ b.pieces, Readable d p := by
  rw [branch.eq_def] at h
  split at h
  · simp at h
  · simp at h
  · cases h
    simp
  -- One piece is read, and then the rest of the branch
  next t us _ _ =>
    split at h
    · cases h
      simp
    · split at h
      · simp at h
      next p hp =>
        have hps := readable_piece hs (takes_of_eq_some hp)
        have hrest := hs.of_suffix (suffix_piece (takes_of_eq_some hp))
        have := p.shorter
        simp only at h
        split at h
        · simp at h
        next c hc =>
          have hcs := readable_branch hrest hc
          cases h
          exact List.forall_mem_append.2 ⟨hps, hcs⟩
termination_by (ts.length, 2)
decreasing_by
  · subst_vars
    exact Prod.Lex.right _ (by decide)
  · subst_vars
    exact Prod.Lex.left _ _ (by assumption)

end

theorem readable_templatePart {ts rest : List Token} {ps : List Piece} (hs : Sound ts)
    (h : Takes (templatePart d ts) ps rest) : ∀ p ∈ ps, Readable d p := by
  rw [templatePart.eq_def] at h
  split at h
  · obtain ⟨rfl, rfl⟩ := takes_some.1 h
    simp [Taken.one]
  next us _ =>
    split at h
    · simp at h
    next p hp =>
      have hps := readable_piece hs (takes_of_eq_some hp)
      obtain ⟨qs, hqs, rfl⟩ := h.of_map (p.value ++ ·) fun _ => ⟨rfl, rfl⟩
      have := p.shorter
      have hrest := hs.of_suffix (suffix_piece (takes_of_eq_some hp))
      exact List.forall_mem_append.2 ⟨hps, readable_templatePart hrest hqs⟩
termination_by ts.length

/-! ## Rows of readings -/

/-- Marks at which the pieces of a template or of a branch may end. -/
def endsPieces (d : Dialect) : Mark → Bool
  | .slash => true
  | .colon | .parenClose => d.isUltiSnips
  | _ => false

/-- Pieces read one after the other, none of them from a mark at which the pieces may end. -/
inductive ReadsPieces (d : Dialect) : List Token → List Piece → List Token → Prop where
  | nil (ts : List Token) : ReadsPieces d ts [] ts
  | cons {ts us rest : List Token} {ps qs : List Piece} :
      (∀ m, ts.head? = some (mark m) → endsPieces d m = false) → Takes (piece d ts) ps us →
      ReadsPieces d us qs rest → ReadsPieces d ts (ps ++ qs) rest

theorem ReadsPieces.append {ps qs : List Piece} (h : ReadsPieces d ts ps us)
    (h' : ReadsPieces d us qs rest) : ReadsPieces d ts (ps ++ qs) rest := by
  induction h with
  | nil => exact h'
  | cons hend hp _ ih =>
    rw [List.append_assoc]
    exact .cons hend hp (ih h')

theorem ReadsPieces.one {ps : List Piece}
    (hend : ∀ m, ts.head? = some (mark m) → endsPieces d m = false)
    (h : Takes (piece d ts) ps rest) : ReadsPieces d ts ps rest := by
  have := ReadsPieces.cons hend h (.nil rest)
  rwa [List.append_nil] at this

/-- A template is a row of readings up to a slash. -/
theorem ReadsPieces.templatePart {ps : List Piece}
    (h : ReadsPieces d ts ps (mark .slash :: rest)) : Takes (templatePart d ts) ps rest := by
  generalize hus : mark .slash :: rest = us at h
  induction h with
  | nil ts =>
    subst hus
    rw [Grammar.templatePart]
    exact takes_some.2 ⟨rfl, rfl⟩
  | @cons ts us _ ps qs hend hp _ ih =>
    obtain ⟨hshorter, hp⟩ := hp
    rw [Grammar.templatePart]
    · simp only [hp]
      exact (ih hus).map (ps ++ ·) fun _ => ⟨rfl, rfl⟩
    · rintro us rfl
      simp [endsPieces] at hend

/-- A branch is a row of readings up to a parenthesis, or up to a colon where one may end it. -/
theorem ReadsPieces.branch {ps : List Piece} (colon : Bool) (hd : d.isUltiSnips)
    (h : ReadsPieces d ts ps us)
    (hus : us.head? = some (mark .parenClose) ∨ (colon ∧ us.head? = some (mark .colon))) :
    ∃ b, branch d colon ts = some b ∧ b.pieces = ps ∧ b.rest = us := by
  induction h with
  | nil ts =>
    -- The branch ends where the row does, at whichever of the two marks is there
    rcases hus with hus | ⟨rfl, hus⟩
    · obtain ⟨us, rfl⟩ : ∃ us, ts = mark .parenClose :: us := by
        cases ts <;> simp_all
      rw [Grammar.branch]
      exact ⟨_, rfl, rfl, rfl⟩
    · obtain ⟨us, rfl⟩ : ∃ us, ts = mark .colon :: us := by
        cases ts <;> simp_all
      rw [Grammar.branch]
      · exact ⟨_, rfl, rfl, rfl⟩
      all_goals simp
  | @cons ts us _ ps qs hend hp _ ih =>
    obtain ⟨b, hb, rfl, rfl⟩ := ih hus
    obtain ⟨hshorter, hp⟩ := hp
    cases ts with
    | nil => simp at hshorter
    | cons t ts =>
      rw [Grammar.branch]
      · rw [if_neg]
        · simp only [hp, hb]
          exact ⟨_, rfl, rfl, rfl⟩
        · rintro ⟨-, rfl⟩
          simp [endsPieces, hd] at hend
      · rintro rfl
        simp [endsPieces] at hend
      · rintro rfl
        simp [endsPieces, hd] at hend

/-! ## What is written is read -/

theorem escaping_template (d : Dialect) : Escaping (Piece.isSpecial d) where
  isMark c hc := by
    unfold Piece.isSpecial at hc
    split at hc <;> simp_all [Mark.ofChar?]
  backslash := rfl

theorem isTemplateEscape_eq (d : Dialect) (m : Mark) :
    isTemplateEscape d m = Piece.isSpecial d m.char := by
  cases m <;> rfl

theorem endsPieces_of_plain {m : Mark} (h : Piece.isSpecial d m.char = false) :
    endsPieces d m = false := by
  cases m <;> simp_all [Piece.isSpecial, Mark.char, endsPieces]

theorem piece_backslash (ts : List Token) :
    piece d (mark .backslash :: ts) = some (templateEscape d ts) := by rw [piece]

private theorem takes_piece_plain {t : Token}
    (ht : ∀ m, t = mark m → Piece.isSpecial d m.char = false) (ts : List Token) :
    Takes (piece d (t :: ts)) [.text t.text] ts := by
  by_cases hparen : t = mark .parenOpen
  · subst hparen
    have := ht .parenOpen rfl
    have hd : ¬d.isUltiSnips := by simpa [Piece.isSpecial, Mark.char] using this
    rw [piece, if_neg hd]
    exact takes_some.2 ⟨rfl, rfl⟩
  · rw [piece]
    · exact takes_some.2 ⟨rfl, rfl⟩
    · rintro rfl
      simp [Piece.isSpecial, Mark.char] at ht
    · rintro rfl
      simp [Piece.isSpecial, Mark.char] at ht
    · exact hparen

/-- Literal text is read token by token. -/
theorem readsPieces_of_escapes {cs : List Char} (h : Escapes (Piece.isSpecial d) cs ts) :
    ∃ ps, Spells ps (String.ofList cs) ∧ ∀ rest, ReadsPieces d (ts ++ rest) ps rest := by
  induction h with
  | nil => exact ⟨[], .nil, fun rest => .nil rest⟩
  | @mark m cs ts hm _ ih =>
    obtain ⟨ps, hps, hread⟩ := ih
    have hspells := hps.cons (s := String.singleton m.char) (by simp)
    rw [← ofList_char_cons] at hspells
    refine ⟨.text (String.singleton m.char) :: ps, hspells, fun rest => ?_⟩
    -- The mark is a piece of its own, which is joined to the text later
    have hone : Takes (piece d (mark .backslash :: mark m :: (ts ++ rest)))
        [.text (String.singleton m.char)] (ts ++ rest) := by
      rw [piece_backslash, templateEscape, if_pos (by rw [isTemplateEscape_eq, hm])]
      exact takes_some.2 ⟨rfl, rfl⟩
    exact .cons (by simp [endsPieces]) hone (hread rest)
  | @plain t cs ts ht hplain _ ih =>
    obtain ⟨ps, hps, hread⟩ := ih
    have hspells := hps.cons ht.text_ne_empty
    rw [← ofList_text_append] at hspells
    refine ⟨.text t.text :: ps, hspells, fun rest => ?_⟩
    refine .cons ?_ (takes_piece_plain hplain (ts ++ rest)) (hread rest)
    intro m hm
    exact endsPieces_of_plain (hplain m (by simpa using hm))

theorem readsPieces_text (cs : List Char) {rest : List Char} (hrest : Breaks rest) :
    ∃ ps, Spells ps (String.ofList cs) ∧
      ReadsPieces d (lex (escapeChars (Piece.isSpecial d) cs ++ rest)) ps (lex rest) := by
  obtain ⟨ts, hts, hlex⟩ := lex_escapeChars (escaping_template d) cs hrest
  obtain ⟨ps, hps, hread⟩ := readsPieces_of_escapes hts
  exact ⟨ps, hps, hlex ▸ hread (lex rest)⟩

/-- The letter of a directive begins a word, whatever text is written after it. -/
private theorem lex_directive (c : CaseDirective) (cs : List Char) {rest : List Char}
    (hrest : Breaks rest) :
    lex (c.letter :: (escapeChars (Piece.isSpecial d) cs ++ rest)) =
      word (String.ofList (c.letter :: cs.takeWhile continuesWord)) ::
        lex (escapeChars (Piece.isSpecial d) (cs.dropWhile continuesWord) ++ rest) := by
  let w := word (String.ofList (c.letter :: cs.takeWhile continuesWord))
  have hw : w.WellFormed := by
    refine ⟨c.letter, cs.takeWhile continuesWord, by simp [w, Token.text], ?_, ?_⟩
    · have : startsWord c.letter := by cases c <;> decide
      exact this
    · intro x hx
      exact List.all_eq_true.1 List.all_takeWhile x hx
  have hend : w.EndsBefore (cs.dropWhile continuesWord) := by
    intro x hx
    have := List.head?_dropWhile_not continuesWord cs
    cases hd : cs.dropWhile continuesWord with
    | nil => simp [hd] at hx
    | cons y ys => simp_all [w, goesOn]
  -- What goes on with the word is not escaped, so the letter and it are one token
  have hplain : escapeChars (Piece.isSpecial d) (cs.takeWhile continuesWord) =
      cs.takeWhile continuesWord := by
    apply escapeChars_of_not_special
    intro x hx
    have hx := List.all_eq_true.1 List.all_takeWhile x hx
    apply Bool.eq_false_iff.2
    intro hspecial
    have := not_goesOn_of_isMark w ((escaping_template d).isMark x hspecial)
    simp [w, goesOn, hx] at this
  have hsplit : escapeChars (Piece.isSpecial d) cs = cs.takeWhile continuesWord ++
      escapeChars (Piece.isSpecial d) (cs.dropWhile continuesWord) := by
    have := escapeChars_append (Piece.isSpecial d) (cs.takeWhile continuesWord)
      (cs.dropWhile continuesWord)
    rwa [List.takeWhile_append_dropWhile, hplain] at this
  have hends : w.EndsBefore
      (escapeChars (Piece.isSpecial d) (cs.dropWhile continuesWord) ++ rest) :=
    endsBefore_escapeChars hend hrest
  rw [← lex_text_append hw hends, hsplit]
  simp [w, Token.text]

/-- A case directive is read together with the word that it begins; the rest of the word is text, as
is what comes after it. -/
theorem readsPieces_directive (hd : d.isUltiSnips) (c : CaseDirective) (cs : List Char)
    {rest : List Char} (hrest : Breaks rest) :
    ∃ ps, Spells ps (String.ofList cs) ∧
      ReadsPieces d (lex ('\\' :: c.letter :: (escapeChars (Piece.isSpecial d) cs ++ rest)))
        (.directive c :: ps) (lex rest) := by
  obtain ⟨qs, hqs, hread⟩ := readsPieces_text (d := d) (cs.dropWhile continuesWord) hrest
  have hlex := lex_directive (d := d) c cs hrest
  have hback := lex_mark .backslash (c.letter :: (escapeChars (Piece.isSpecial d) cs ++ rest))
  rw [hlex] at hback
  -- What the word has behind the letter is a piece of text, if there is anything
  let more := if (cs.takeWhile continuesWord).isEmpty then []
    else [Piece.text (String.ofList (cs.takeWhile continuesWord))]
  have hfirst : Takes (piece d (mark .backslash ::
      word (String.ofList (c.letter :: cs.takeWhile continuesWord)) ::
        lex (escapeChars (Piece.isSpecial d) (cs.dropWhile continuesWord) ++ rest)))
      (.directive c :: more)
      (lex (escapeChars (Piece.isSpecial d) (cs.dropWhile continuesWord) ++ rest)) := by
    rw [piece_backslash, takes_some]
    simp only [templateEscape, hd, String.toList_ofList, CaseDirective.ofLetter?_letter]
    exact ⟨rfl, rfl⟩
  have hvalue : String.ofList cs = String.ofList (cs.takeWhile continuesWord) ++
      String.ofList (cs.dropWhile continuesWord) :=
    String.toList_injective (by simp [List.takeWhile_append_dropWhile])
  refine ⟨more ++ qs, ?_, ?_⟩
  · rw [hvalue]
    cases hw : cs.takeWhile continuesWord with
    | nil => simpa [more, hw] using hqs
    | cons x xs =>
      have := hqs.cons (s := String.ofList (cs.takeWhile continuesWord)) (by simp [hw])
      simpa [more, hw] using this
  · refine hback ▸ ?_
    exact .cons (by simp [endsPieces]) hfirst hread

theorem takes_piece_format {f : FormatString} (h : Takes (formatString d ts) f rest) :
    Takes (piece d (mark .dollar :: ts)) [.format f] rest := by
  obtain ⟨_, h⟩ := h
  rw [piece, h]
  exact takes_some.2 ⟨rfl, rfl⟩

theorem takes_piece_condition {c : Piece} (hd : d.isUltiSnips)
    (h : Takes (condition d ts) c rest) : Takes (piece d (mark .parenOpen :: ts)) [c] rest := by
  obtain ⟨_, h⟩ := h
  rw [piece, if_pos hd, h]
  exact takes_some.2 ⟨rfl, rfl⟩

/-- A condition with one branch. -/
theorem takes_condition_if {i : Nat} (hd : d.isUltiSnips) (hi : i < groupBound) {ps : List Piece}
    (h : ReadsPieces d ts ps (mark .parenClose :: rest)) :
    Takes (condition d (mark .question :: digits (toString i) :: mark .colon :: ts))
      (mkCondition i (mergeText ps) []) rest := by
  obtain ⟨⟨_, us, hlonger⟩, hb, rfl, hrest⟩ := h.branch true hd (Or.inl rfl)
  simp only at hrest
  subst hrest
  rw [condition, indexBelow?_toString hi, hb]
  exact takes_some.2 ⟨rfl, rfl⟩

/-- A condition with two branches. -/
theorem takes_condition_both {i : Nat} (hd : d.isUltiSnips) (hi : i < groupBound)
    {ps qs : List Piece} (h : ReadsPieces d ts ps (mark .colon :: us))
    (h' : ReadsPieces d us qs (mark .parenClose :: rest)) :
    Takes (condition d (mark .question :: digits (toString i) :: mark .colon :: ts))
      (mkCondition i (mergeText ps) (mergeText qs)) rest := by
  obtain ⟨⟨_, vs, hlonger⟩, hb, rfl, hrest⟩ := h.branch true hd (Or.inr ⟨rfl, rfl⟩)
  simp only at hrest
  subst hrest
  obtain ⟨⟨_, ws, hlonger'⟩, hb', rfl, hrest⟩ := h'.branch false hd (Or.inl rfl)
  simp only at hrest
  subst hrest
  rw [condition, indexBelow?_toString hi, hb]
  simp only [Option.bind_eq_bind, Option.bind_some, hb']
  exact takes_some.2 ⟨rfl, rfl⟩

end Grammar

namespace Piece

variable {d : Dialect}

/-- What is written for pieces breaks off a text before them, unless they begin with text. -/
theorem breaks_sourceAll {ps : List Piece} (hps : ∀ p ∈ ps.head?, ¬p.IsText) {rest : List Char}
    (hrest : Breaks rest) : Breaks ((sourceAll d ps).toList ++ rest) := by
  cases ps with
  | nil => simpa [sourceAll] using hrest
  | cons p ps =>
    rw [sourceAll, String.toList_append, List.append_assoc]
    -- What is written for a piece begins with a mark, unless it is a text
    cases p with
    | text s => exact absurd trivial (hps _ rfl)
    | directive c =>
      apply breaks_of_head? (m := .backslash)
      simp [source, Mark.char]
    | format f =>
      apply breaks_of_head? (m := .dollar)
      simp [source, FormatString.source, Mark.char]
    | textCondition i a b =>
      apply breaks_of_head? (m := .parenOpen)
      simp [source, conditionSource, Mark.char]
    | condition i a b =>
      apply breaks_of_head? (m := .parenOpen)
      simp [source, conditionSource, Mark.char]

private theorem lex_condition (i : Nat) (cs : List Char) :
    lex ('(' :: '?' :: ((toString i).toList ++ ':' :: cs)) =
      mark .parenOpen :: mark .question :: digits (toString i) :: mark .colon :: lex cs := by
  have hdigits : lex ((toString i).toList ++ ':' :: cs) = digits (toString i) :: lex (':' :: cs) :=
    lex_number i (by simp [isDigit])
  have hcolon : lex (':' :: cs) = mark .colon :: lex cs := lex_mark .colon cs
  rw [← hcolon, ← hdigits, ← lex_mark, ← lex_mark]
  rfl

/-- A condition is read as it is written, given that its branch is. -/
theorem reads_conditionSource_if {i : Nat} (hi : i < groupBound) {a : String} {ps : List Piece}
    {rest : List Char}
    (ha : ReadsPieces .ultiSnips (lex (a.toList ++ ')' :: rest)) ps (lex (')' :: rest))) :
    ReadsPieces .ultiSnips (lex ((conditionSource i a none).toList ++ rest))
      [mkCondition i (mergeText ps) []] (lex rest) := by
  have hlex : lex ((conditionSource i a none).toList ++ rest) = mark .parenOpen ::
      mark .question :: digits (toString i) :: mark .colon :: lex (a.toList ++ ')' :: rest) := by
    rw [← lex_condition]
    simp [conditionSource]
  have hparen : lex (')' :: rest) = mark .parenClose :: lex rest := lex_mark .parenClose rest
  rw [hparen] at ha
  rw [hlex]
  exact .one (by simp [endsPieces]) (takes_piece_condition rfl (takes_condition_if rfl hi ha))

/-- A condition is read as it is written, given that both branches are. -/
theorem reads_conditionSource_both {i : Nat} (hi : i < groupBound) {a b : String}
    {ps qs : List Piece} {rest : List Char}
    (ha : ReadsPieces .ultiSnips (lex (a.toList ++ ':' :: (b.toList ++ ')' :: rest))) ps
      (lex (':' :: (b.toList ++ ')' :: rest))))
    (hb : ReadsPieces .ultiSnips (lex (b.toList ++ ')' :: rest)) qs (lex (')' :: rest))) :
    ReadsPieces .ultiSnips (lex ((conditionSource i a (some b)).toList ++ rest))
      [mkCondition i (mergeText ps) (mergeText qs)] (lex rest) := by
  have hlex : lex ((conditionSource i a (some b)).toList ++ rest) = mark .parenOpen ::
      mark .question :: digits (toString i) :: mark .colon ::
        lex (a.toList ++ ':' :: (b.toList ++ ')' :: rest)) := by
    rw [← lex_condition]
    simp [conditionSource]
  -- The colon and the parenthesis are tokens of their own, whatever follows
  have hcolon : lex (':' :: (b.toList ++ ')' :: rest)) =
      mark .colon :: lex (b.toList ++ ')' :: rest) := lex_mark .colon _
  have hparen : lex (')' :: rest) = mark .parenClose :: lex rest := lex_mark .parenClose rest
  rw [hcolon] at ha
  rw [hparen] at hb
  rw [hlex]
  exact .one (by simp [endsPieces]) (takes_piece_condition rfl (takes_condition_both rfl hi ha hb))

/-- A condition with texts for branches is read as it is written. -/
theorem reads_textCondition {i : Nat} (hi : i < groupBound) (a b : String) (rest : List Char) :
    ReadsPieces .ultiSnips (lex ((source .ultiSnips (textCondition i a b)).toList ++ rest))
      [textCondition i a b] (lex rest) := by
  -- What is read for a text is a text again, so the condition is told by two texts
  have plain {ps : List Piece} {s : String} (hps : Spells ps s) :
      plainText? (mergeText ps) = some s := by
    have := hps []
    rw [List.append_nil] at this
    rw [this]
    by_cases hs : s = ""
    · rw [hs, addText_empty]
      rfl
    · rw [addText_of_not_isText hs (by simp [mergeText])]
      rfl
  have branch (s : String) {rest : List Char} (hrest : Breaks rest) :
      ∃ ps, plainText? (mergeText ps) = some s ∧ ReadsPieces .ultiSnips
        (lex ((escapeText .ultiSnips s).toList ++ rest)) ps (lex rest) := by
    obtain ⟨ps, hps, hread⟩ := readsPieces_text (d := .ultiSnips) s.toList hrest
    exact ⟨ps, by simpa using plain hps, by simpa [escapeText] using hread⟩
  rw [source]
  by_cases hb : b = ""
  · obtain ⟨ps, hps, hread⟩ := branch a (breaks_mark .parenClose rest)
    have := reads_conditionSource_if hi hread
    have hempty : plainText? [] = some "" := rfl
    simp only [mkCondition, hps, hempty] at this
    simpa [hb] using this
  · obtain ⟨qs, hqs, hread'⟩ := branch b (breaks_mark .parenClose rest)
    obtain ⟨ps, hps, hread⟩ := branch a
      (breaks_mark .colon ((escapeText .ultiSnips b).toList ++ ')' :: rest))
    have := reads_conditionSource_both hi hread hread'
    simp only [mkCondition, hps, hqs] at this
    simpa [hb] using this

theorem mkCondition_of_not_plain (i : Nat) {a b : List Piece}
    (h : ¬((plainText? a).isSome ∧ (plainText? b).isSome)) :
    mkCondition i a b = condition i a b := by
  unfold mkCondition
  split
  next ha hb => simp [ha, hb] at h
  next => rfl

theorem isUltiSnips_iff : d.isUltiSnips ↔ d = .ultiSnips := by
  cases d <;> simp [Dialect.isUltiSnips]

theorem reads_cons {p : Piece} (hp : ¬p.IsText) {ps raw : List Piece} {rest : List Char}
    (hraw : mergeText raw = ps)
    (h : ReadsPieces d (lex ((source d p).toList ++ ((sourceAll d ps).toList ++ rest))) [p]
      (lex ((sourceAll d ps).toList ++ rest)))
    (h' : ReadsPieces d (lex ((sourceAll d ps).toList ++ rest)) raw (lex rest)) :
    ∃ raw, mergeText raw = p :: ps ∧
      ReadsPieces d (lex ((sourceAll d (p :: ps)).toList ++ rest)) raw (lex rest) := by
  refine ⟨p :: raw, by rw [mergeText_cons hp, hraw], ?_⟩
  rw [sourceAll, String.toList_append, List.append_assoc]
  exact h.append h'

/-- The pieces of a readable template are read as they are written. -/
theorem reads_sourceAll : (ps : List Piece) → ReadableAll d ps → (rest : List Char) → Breaks rest →
    ∃ raw, mergeText raw = ps ∧
      ReadsPieces d (lex ((sourceAll d ps).toList ++ rest)) raw (lex rest)
  | [], _, rest, _ => ⟨[], rfl, by simpa [sourceAll] using .nil (lex rest)⟩
  | text s :: ps, h, rest, hrest => by
    obtain ⟨raw, hraw, hread⟩ := reads_sourceAll ps h.2.2 rest hrest
    have hps := h.2.1 trivial
    obtain ⟨qs, hqs, hread'⟩ := readsPieces_text (d := d) s.toList (breaks_sourceAll hps hrest)
    refine ⟨qs ++ raw, ?_, ?_⟩
    · rw [hqs, hraw, String.ofList_toList, addText_of_not_isText h.1 hps]
    · simpa [sourceAll, source, escapeText] using hread'.append hread
  | directive c :: ps, h, rest, hrest => by
    -- The text after a directive is read together with it
    by_cases htext : ∃ s qs, ps = text s :: qs
    · obtain ⟨s, qs, rfl⟩ := htext
      obtain ⟨raw, hraw, hread⟩ := reads_sourceAll qs h.2.2.2.2 rest hrest
      have hqs := h.2.2.2.1 trivial
      obtain ⟨ps, hps, hread'⟩ :=
        readsPieces_directive (d := d) h.1 c s.toList (breaks_sourceAll hqs hrest)
      refine ⟨directive c :: ps ++ raw, ?_, ?_⟩
      · rw [List.cons_append, mergeText_cons id, hps, hraw, String.ofList_toList,
          addText_of_not_isText h.2.2.1 hqs]
      · simpa [sourceAll, source, escapeText] using hread'.append hread
    · obtain ⟨raw, hraw, hread⟩ := reads_sourceAll ps h.2.2 rest hrest
      have hnone : ∀ p ∈ ps.head?, ¬p.IsText := by
        intro p hp ht
        cases ps with
        | nil => simp at hp
        | cons q qs =>
          cases q with
          | text s => exact htext ⟨s, qs, rfl⟩
          | _ =>
            obtain rfl := Option.some.inj hp
            exact ht
      obtain ⟨qs, hqs, hread'⟩ :=
        readsPieces_directive (d := d) h.1 c [] (breaks_sourceAll hnone hrest)
      refine ⟨directive c :: qs ++ raw, ?_, ?_⟩
      · rw [List.cons_append, mergeText_cons id, hqs, hraw]
        exact congrArg _ (addText_empty ps)
      · simpa [sourceAll, source] using hread'.append hread
  | format f :: ps, h, rest, hrest => by
    obtain ⟨raw, hraw, hread⟩ := reads_sourceAll ps h.2.2 rest hrest
    refine reads_cons id hraw ?_ hread
    have := takes_formatString h.1 ((sourceAll d ps).toList ++ rest)
    have hlex := lex_mark .dollar ('\x7b' :: ((toString f.index).toList ++ (f.suffix.toList ++
      '}' :: ((sourceAll d ps).toList ++ rest))))
    have hone := ReadsPieces.one (by simp [endsPieces]) (takes_piece_format this)
    rw [← hlex] at hone
    simpa [source, FormatString.source, Mark.char] using hone
  | textCondition i a b :: ps, h, rest, hrest => by
    obtain ⟨raw, hraw, hread⟩ := reads_sourceAll ps h.2.2 rest hrest
    obtain rfl := isUltiSnips_iff.1 h.1.1
    exact reads_cons id hraw (reads_textCondition h.1.2 a b _) hread
  | condition i a b :: ps, h, rest, hrest => by
    obtain ⟨raw, hraw, hread⟩ := reads_sourceAll ps h.2.2 rest hrest
    refine reads_cons id hraw ?_ hread
    obtain ⟨⟨hd, hi, ha, hb, hplain⟩, -⟩ := h
    have readsIf := reads_sourceAll a ha
    have readsElse := reads_sourceAll b hb
    obtain rfl := isUltiSnips_iff.1 hd
    rw [source]
    -- There is a colon only if there is something behind it
    cases b with
    | nil =>
      obtain ⟨as, has, hread⟩ := readsIf _ (breaks_mark .parenClose _)
      have := reads_conditionSource_if hi hread
      rwa [has, mkCondition_of_not_plain i hplain] at this
    | cons p ps =>
      obtain ⟨bs, hbs, hread'⟩ := readsElse _ (breaks_mark .parenClose _)
      obtain ⟨as, has, hread⟩ := readsIf _ (breaks_mark .colon _)
      have := reads_conditionSource_both hi hread hread'
      rwa [has, hbs, mkCondition_of_not_plain i hplain] at this

end Piece

/-! ## Transforms -/

/-- Transforms that are read from source. -/
structure ReadableTransform (d : Dialect) (t : Transform) : Prop where
  pattern : PatternWritable d t.pattern.toList
  pieces : Piece.ReadableAll d t.pieces

namespace Grammar

variable {d : Dialect}

/-- What is read as a transform can be written as one. -/
theorem readable_transform {ts rest : List Token} {t : Transform} (hs : Sound ts)
    (h : Takes (transform d ts) t rest) : ReadableTransform d t := by
  obtain ⟨pattern, hpattern, h⟩ := takes_bind.1 h
  obtain ⟨pieces, hpieces, h⟩ := takes_bind.1 h
  obtain ⟨letters, hletters, h⟩ := takes_bind.1 h
  -- Each part is read from what the part before has left
  have hwritable := patternWritable_regexPart hs (takes_of_eq_some hpattern)
  have hrest := hs.of_suffix (suffix_regexPart (takes_of_eq_some hpattern))
  have hreadable := readable_templatePart hrest (takes_of_eq_some hpieces)
  simp only at h
  split at h
  · simp at h
  next made hmade =>
    obtain ⟨rfl, rfl⟩ := takes_some.1 h
    cases hflags : TransformFlags.read letters.value with
    | error => simp [hflags, bind, Except.bind] at hmade
    | ok flags =>
      simp only [hflags, bind, Except.bind] at hmade
      obtain ⟨hp, hps⟩ := Transform.make_eq_ok hmade
      exact ⟨hp ▸ hwritable, hps ▸ Piece.readableAll_mergeText hreadable⟩

/-- A transform is read as it is written. -/
theorem takes_transform {t : Transform} (ht : ReadableTransform d t) (rest : List Char) :
    Takes (transform d (lex ((t.source d).toList ++ '}' :: rest))) t (lex rest) := by
  have hslash (cs : List Char) : lex ('/' :: cs) = mark .slash :: lex cs := lex_mark .slash cs
  let afterPattern := (Piece.sourceAll d t.pieces).toList ++
    '/' :: (t.flags.source.toList ++ '}' :: rest)
  have hsource : (t.source d).toList ++ '}' :: rest =
      escapeChars (· == '/') t.pattern.toList ++ '/' :: afterPattern := by
    simp [Transform.source, toList_patternSource, afterPattern]
  obtain ⟨raw, hraw, hreads⟩ := Piece.reads_sourceAll t.pieces ht.pieces _
    (breaks_mark .slash (t.flags.source.toList ++ '}' :: rest))
  -- The flags are letters, so they go to the brace
  have hflags : '}' ∉ t.flags.source.toList := by
    obtain ⟨_ | _, _ | _, _ | _, _ | _, _ | _, _ | _⟩ := t.flags <;>
      simp [TransformFlags.source]
  obtain ⟨_, hpattern⟩ := regexPart_patternSource ht.pattern afterPattern
  obtain ⟨_, hpieces⟩ := (hslash _ ▸ hreads : ReadsPieces d (lex afterPattern) raw
    (mark .slash :: lex (t.flags.source.toList ++ '}' :: rest))).templatePart
  obtain ⟨_, hletters⟩ := takes_flagsPart hflags rest
  rw [hsource]
  refine takes_bind.2 ⟨_, hpattern, takes_bind.2 ⟨_, hpieces, takes_bind.2 ⟨_, hletters, ?_⟩⟩⟩
  have hmade : (do
      let flags ← TransformFlags.read (String.ofList t.flags.source.toList)
      Transform.make (String.ofList t.pattern.toList) (Piece.mergeText raw) flags) = .ok t := by
    rw [String.ofList_toList, String.ofList_toList, hraw, TransformFlags.read_source]
    exact t.make_self
  simp only [hmade]
  exact takes_some.2 ⟨rfl, rfl⟩

end Grammar

end TabStop
