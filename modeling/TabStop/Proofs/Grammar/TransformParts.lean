import TabStop.Proofs.Grammar.Remainders

/-!
# Parts of a transform read back

The pattern, the flags and the references to groups of a transform are read as they are written.
Each of them comes in two halves: what the rule gives is of a certain form, and what is of that form
is read by the rule from the way it is written, whatever comes after it.
-/

namespace TabStop.Grammar

open Token

variable {d : Dialect} {ts rest : List Token}

/-! ## Patterns -/

/-- A pattern in which every backslash has a character after it; in UltiSnips that is no `Z`. -/
def PatternWritable (d : Dialect) : List Char → Prop
  | [] => True
  | c :: cs =>
    (c = '\\' → cs ≠ [] ∧ (d.isUltiSnips → cs.head? ≠ some 'Z')) ∧ PatternWritable d cs

theorem patternWritable_append {cs : List Char} (hcs : '\\' ∉ cs) (ds : List Char) :
    PatternWritable d (cs ++ ds) ↔ PatternWritable d ds := by
  induction cs with
  | nil => rfl
  | cons c cs ih =>
    simp only [List.mem_cons, not_or] at hcs
    simp [PatternWritable, ih hcs.2, Ne.symm hcs.1]

theorem PatternWritable.of_append {cs ds : List Char} (h : PatternWritable d (cs ++ ds)) :
    PatternWritable d ds := by
  induction cs with
  | nil => exact h
  | cons c cs ih => exact ih h.2

/-- No token but a word begins with a letter. -/
theorem head?_ne_Z {t : Token} (ht : t.WellFormed) (hw : ∀ w, t ≠ word w) :
    t.text.toList.head? ≠ some 'Z' := by
  obtain ⟨c, cs, hcs, hc, -⟩ := ht
  rw [hcs]
  rintro ⟨⟩
  cases t with
  | mark m => cases m <;> simp [starts, Mark.char] at hc
  | digits => simp [starts, isDigit] at hc
  | word w => exact hw w rfl
  | other => simp [starts, isOther, continuesWord, startsWord, isLetter] at hc

/-- What a backslash and a word after it are in a pattern. -/
def escapedWord (d : Dialect) (w : String) : String :=
  match w.toList with
  | 'Z' :: cs => if d.isUltiSnips then "\\z" ++ String.ofList cs else "\\" ++ w
  | _ => "\\" ++ w

theorem toList_escapedWord (d : Dialect) (w : String) :
    (escapedWord d w).toList = '\\' :: w.toList ∧ (d.isUltiSnips → w.toList.head? ≠ some 'Z') ∨
      ∃ cs, d.isUltiSnips ∧ w.toList = 'Z' :: cs ∧
        (escapedWord d w).toList = '\\' :: 'z' :: cs := by
  unfold escapedWord
  split
  next cs hw =>
    split
    next hd => exact Or.inr ⟨cs, hd, hw, by simp⟩
    · exact Or.inl ⟨by simp, by simp_all⟩
  next hw =>
    refine Or.inl ⟨by simp, fun _ hz => ?_⟩
    obtain ⟨cs, hcs⟩ : ∃ cs, w.toList = 'Z' :: cs := by
      cases hl : w.toList <;> simp_all
    exact hw cs hcs

/-- What is left of a pattern after a backslash begins as the tokens do. -/
private theorem regexPart_head {value : String} (hs : Sound ts)
    (h : Takes (regexPart d ts) value rest) (hslash : ts.head? ≠ some (mark .slash))
    (hword : ∀ w, ts.head? ≠ some (word w)) :
    value.toList ≠ [] ∧ value.toList.head? ≠ some 'Z' := by
  fun_cases regexPart d ts with
  | case1 => simp [regexPart] at h
  | case2 ts => simp at hslash
  | case3 ts =>
    rw [regexPart] at h
    obtain ⟨a, -, rfl⟩ := h.of_map ("/" ++ ·) fun _ => ⟨rfl, rfl⟩
    simp
  | case4 w ts =>
    rw [regexPart] at h
    obtain ⟨a, -, rfl⟩ := h.of_map (escapedWord d w ++ ·) fun _ => ⟨rfl, rfl⟩
    rcases toList_escapedWord d w with ⟨hw, -⟩ | ⟨cs, -, -, hw⟩ <;> simp [hw]
  | case5 t ts h1 h2 h3 =>
    rw [regexPart] at h
    · obtain ⟨a, -, rfl⟩ := h.of_map (t.text ++ ·) fun _ => ⟨rfl, rfl⟩
      obtain ⟨c, cs, hcs, -⟩ := hs.head
      have := head?_ne_Z hs.head fun w hw => hword w (by simp [hw])
      simp_all
    all_goals assumption

theorem patternWritable_regexPart {value : String} (hs : Sound ts)
    (h : Takes (regexPart d ts) value rest) :
    PatternWritable d value.toList := by
  fun_induction regexPart d ts generalizing value with
  | case1 => simp at h
  | case2 ts =>
    obtain ⟨rfl, rfl⟩ := takes_some.1 h
    exact trivial
  | case3 ts ih =>
    obtain ⟨a, ha, rfl⟩ := h.of_map ("/" ++ ·) fun _ => ⟨rfl, rfl⟩
    simpa [PatternWritable] using ih hs.tail.tail ha
  | case4 w ts start =>
    rename_i ih
    obtain ⟨a, ha, rfl⟩ := h.of_map (escapedWord d w ++ ·) fun _ => ⟨rfl, rfl⟩
    have hw := ih hs.tail.tail ha
    have hplain : '\\' ∉ w.toList :=
      hs.tail.head.not_mem (m := .backslash) (by simp)
    obtain ⟨c, cs, hcs, -⟩ := hs.tail.head
    rw [text] at hcs
    rw [String.toList_append]
    -- The word begins with a letter other than `Z`, or it is written with a small one
    rcases toList_escapedWord d w with ⟨hword, hz⟩ | ⟨cs, -, hz, hword⟩
    · rw [hword, List.cons_append, PatternWritable, patternWritable_append hplain]
      exact ⟨fun _ => ⟨by simp [hcs], fun hd => by simpa [hcs] using hz hd⟩, hw⟩
    · rw [hword, List.cons_append, PatternWritable, List.cons_append, PatternWritable,
        patternWritable_append (fun hc => hplain (by simp [hz, hc]))]
      exact ⟨by simp, by simp, hw⟩
  | case5 t ts hslash hesc hword ih =>
    obtain ⟨a, ha, rfl⟩ := h.of_map (t.text ++ ·) fun _ => ⟨rfl, rfl⟩
    have hw := ih hs.tail ha
    rw [String.toList_append]
    -- Only a backslash puts a condition on what comes after it
    by_cases hb : t = mark .backslash
    · subst hb
      have hhead := regexPart_head hs.tail ha
        (fun hh => by
          cases ts with
          | nil => simp at hh
          | cons u us => exact hesc us rfl (by simpa using hh))
        (fun w hh => by
          cases ts with
          | nil => simp at hh
          | cons u us => exact hword w us rfl (by simpa using hh))
      exact ⟨fun _ => ⟨hhead.1, fun _ => hhead.2⟩, hw⟩
    · have hplain : '\\' ∉ t.text.toList := hs.head.not_mem (m := .backslash) hb
      exact (patternWritable_append hplain _).2 hw

theorem regexPart_slash (ts : List Token) : Takes (regexPart d (mark .slash :: ts)) "" ts :=
  takes_some.2 ⟨rfl, rfl⟩

theorem regexPart_escape {value : String} (h : Takes (regexPart d ts) value rest) :
    Takes (regexPart d (mark .backslash :: mark .slash :: ts)) ("/" ++ value) rest :=
  h.map ("/" ++ ·) fun _ => ⟨rfl, rfl⟩

/-- A token that nothing special begins with stands for its text. -/
theorem regexPart_plain {t : Token} {value : String} (hslash : t ≠ mark .slash)
    (hesc : ∀ us, t = mark .backslash → ts ≠ mark .slash :: us)
    (hword : ∀ w us, t = mark .backslash → ts ≠ word w :: us)
    (h : Takes (regexPart d ts) value rest) :
    Takes (regexPart d (t :: ts)) (t.text ++ value) rest := by
  rw [regexPart]
  · exact h.map (t.text ++ ·) fun _ => ⟨rfl, rfl⟩
  · exact hslash
  · exact hesc
  · exact hword

private theorem regexPart_backslash_word {w value : String}
    (hz : d.isUltiSnips → w.toList.head? ≠ some 'Z')
    (h : Takes (regexPart d (word w :: ts)) value rest) :
    Takes (regexPart d (mark .backslash :: word w :: ts)) ("\\" ++ value) rest := by
  have hword : escapedWord d w = "\\" ++ w := by
    rcases toList_escapedWord d w with ⟨hw, -⟩ | ⟨cs, hd, hw, -⟩
    · exact String.toList_injective (by simp [hw])
    · exact absurd (by simp [hw]) (hz hd)
  obtain ⟨a, ha, rfl⟩ := Takes.of_map (r := regexPart d ts) h (w ++ ·) fun _ => ⟨rfl, rfl⟩
  have hvalue : "\\" ++ (w ++ a) = escapedWord d w ++ a := by rw [hword, String.append_assoc]
  rw [hvalue]
  exact ha.map (escapedWord d w ++ ·) fun _ => ⟨rfl, rfl⟩

/-- A backslash stands for itself, unless a slash follows or the `Z` that is written otherwise. -/
theorem regexPart_backslash {value : String}
    (hnext : ∀ t ∈ ts.head?, t.text.toList.head? ≠ some '/' ∧
      (d.isUltiSnips → t.text.toList.head? ≠ some 'Z'))
    (h : Takes (regexPart d ts) value rest) :
    Takes (regexPart d (mark .backslash :: ts)) ("\\" ++ value) rest := by
  -- Nothing that is after the backslash is read together with it
  have plain (hslash : ∀ us, ts ≠ mark .slash :: us) (hword : ∀ w us, ts ≠ word w :: us) :
      Takes (regexPart d (mark .backslash :: ts)) ("\\" ++ value) rest :=
    regexPart_plain (by simp) (fun us _ => hslash us) (fun w us _ => hword w us) h
  cases ts with
  | nil => exact plain (by simp) (by simp)
  | cons t us =>
    cases t with
    | mark m =>
      refine plain (fun us hus => ?_) (by simp)
      have := (hnext (mark m) (by simp)).1
      simp_all [text, Mark.char]
    | digits => exact plain (by simp) (by simp)
    | word w => exact regexPart_backslash_word (hnext (word w) (by simp)).2 h
    | other => exact plain (by simp) (by simp)

theorem toList_patternSource (pattern : String) :
    (Transform.patternSource pattern).toList = escapeChars (· == '/') pattern.toList := by
  have : (fun c : Char => if c = '/' then ['\\', '/'] else [c]) =
      fun c => if c == '/' then ['\\', c] else [c] := by
    funext c
    by_cases hc : c = '/' <;> simp [hc]
  rw [Transform.patternSource, String.toList_ofList, this]
  rfl

/-- A pattern is read as it is written, with a backslash before each slash. -/
theorem regexPart_patternSource {p : List Char} (hp : PatternWritable d p) (rest : List Char) :
    Takes (regexPart d (lex (escapeChars (· == '/') p ++ '/' :: rest))) (String.ofList p)
      (lex rest) := by
  have hrest : Breaks ('/' :: rest) := breaks_mark .slash rest
  induction p using lex_induction with
  | nil =>
    rw [escapeChars_nil, List.nil_append]
    exact lex_mark .slash rest ▸ regexPart_slash _
  | token t p ht hend ih =>
    -- One token of the pattern after the other is written and read
    have ih := ih hp.of_append
    rw [ofList_text_append, escapeChars_append, List.append_assoc]
    by_cases hslash : t = mark .slash
    · subst hslash
      have := regexPart_escape ih
      rw [← lex_mark, ← lex_mark] at this
      exact this
    have hplain : escapeChars (· == '/') t.text.toList = t.text.toList := by
      apply escapeChars_of_not_special
      intro c hc
      rw [beq_eq_false_iff_ne]
      rintro rfl
      exact ht.not_mem (m := .slash) hslash hc
    rw [hplain, lex_text_append ht (endsBefore_escapeChars hend hrest)]
    by_cases hback : t = mark .backslash
    · subst hback
      refine regexPart_backslash (fun u hu => ?_) ih
      obtain ⟨us, hus⟩ : ∃ us, lex (escapeChars (· == '/') p ++ '/' :: rest) = u :: us := by
        cases hl : lex (escapeChars (· == '/') p ++ '/' :: rest) <;> simp_all
      -- The pattern goes on, and a slash in it has a backslash of its own
      obtain ⟨hne, hz⟩ := hp.1 rfl
      obtain ⟨c, cs, rfl⟩ := List.exists_cons_of_ne_nil hne
      rw [head?_of_lex hus, escapeChars_cons]
      by_cases hc : c = '/'
      · simp [hc]
      · simpa [hc] using hz
    · exact regexPart_plain hslash (fun _ ht => absurd ht hback) (fun _ _ ht => absurd ht hback) ih

/-! ## Flags -/

theorem takes_flagsPart {cs : List Char} (h : '}' ∉ cs) (rest : List Char) :
    Takes (flagsPart (lex (cs ++ '}' :: rest))) (String.ofList cs) (lex rest) := by
  induction cs using lex_induction with
  | nil =>
    rw [List.nil_append]
    refine lex_mark .braceClose rest ▸ ?_
    rw [flagsPart]
    exact takes_some.2 ⟨rfl, rfl⟩
  | token t cs ht hend ih =>
    have ih := ih fun hc => h (List.mem_append_right _ hc)
    have hbrace : t ≠ mark .braceClose := by
      rintro rfl
      exact h (List.mem_append_left _ (by simp [text, Mark.char]))
    have hbreaks : Breaks ('}' :: rest) := breaks_mark .braceClose rest
    rw [ofList_text_append, List.append_assoc, lex_text_append ht (hend.append hbreaks), flagsPart]
    · exact ih.map (t.text ++ ·) fun _ => ⟨rfl, rfl⟩
    · exact hbrace

/-! ## Texts of branches -/

/-- Characters that are escaped in the text of a branch. -/
def branchSpecial (c : Char) : Bool := c == '$' || c == '}' || c == '\\'

theorem branchSpecial_char {m : Mark} :
    branchSpecial m.char ↔ m = .dollar ∨ m = .braceClose ∨ m = .backslash := by
  cases m <;> decide

theorem escaping_branchSpecial : Escaping branchSpecial where
  isMark c hc := by
    simp only [branchSpecial, Bool.or_eq_true, beq_iff_eq] at hc
    rcases hc with (rfl | rfl) | rfl <;> rfl
  backslash := rfl

theorem toList_escapeBranch (s : String) :
    (FormatString.escapeBranch s).toList = escapeChars branchSpecial s.toList :=
  toList_escapeWith _ s

theorem takes_branchText {stop : Mark} {cs : List Char} (h : Escapes branchSpecial cs ts)
    (hne : stop ≠ .backslash) (hstop : branchSpecial stop.char ∨ stop.char ∉ cs)
    (rest : List Token) :
    Takes (branchText stop (ts ++ mark stop :: rest)) (String.ofList cs) rest := by
  induction h with
  | nil =>
    rw [List.nil_append, branchText, if_pos rfl]
    · exact takes_some.2 ⟨rfl, rfl⟩
    · simpa using hne
  | @mark m cs ts hm _ ih =>
    rw [List.cons_append, List.cons_append, branchText, if_pos (branchSpecial_char.1 hm),
      ofList_char_cons]
    exact (ih (hstop.imp_right fun h hc => h (List.mem_cons_of_mem _ hc))).map
      (String.singleton m.char ++ ·) fun _ => ⟨rfl, rfl⟩
  | @plain t cs ts ht hplain _ ih =>
    have ih := ih (hstop.imp_right fun h hc => h (List.mem_append_right _ hc))
    -- A backslash in the text is special, so it is written with another one
    have hback : t ≠ mark .backslash := by
      rintro rfl
      have := hplain .backslash rfl
      simp [branchSpecial, Mark.char] at this
    -- The mark that ends the text is either escaped in it or not there
    have hne : t ≠ mark stop := by
      rintro rfl
      rcases hstop with h | h
      · simp [hplain stop rfl] at h
      · exact h (by simp [text])
    rw [List.cons_append, ofList_text_append, branchText, if_neg hne]
    · exact ih.map (t.text ++ ·) fun _ => ⟨rfl, rfl⟩
    · exact hback

/-- A text of a branch has no mark in it at which it would end, unless that is escaped. -/
theorem branchText_stop {stop : Mark} {value : String} (hs : Sound ts)
    (h : Takes (branchText stop ts) value rest) :
    stop.char ∈ value.toList → branchSpecial stop.char := by
  intro hc
  -- What is escaped is special, and no other token of the text is the mark that ends it
  fun_induction branchText stop ts generalizing value with
  | case1 => simp at h
  | case2 m ts hm ih =>
    obtain ⟨a, ha, rfl⟩ := h.of_map (String.singleton m.char ++ ·) fun _ => ⟨rfl, rfl⟩
    simp only [String.toList_append, String.toList_singleton, List.cons_append, List.nil_append,
      List.mem_cons] at hc
    rcases hc with hc | hc
    · rw [hc]
      exact branchSpecial_char.2 hm
    · exact ih hs.tail.tail ha hc
  | case3 => simp at h
  | case4 => simp at h
  | case5 ts _ =>
    obtain ⟨rfl, rfl⟩ := takes_some.1 h
    simp [Taken.one] at hc
  | case6 t ts _ hstop ih =>
    obtain ⟨a, ha, rfl⟩ := h.of_map (t.text ++ ·) fun _ => ⟨rfl, rfl⟩
    rw [String.toList_append, List.mem_append] at hc
    rcases hc with hc | hc
    · exact absurd hc (hs.head.not_mem hstop)
    · exact ih hs.tail ha hc

/-- A text of a branch is read as it is written. -/
theorem takes_until?_source (stop : Mark) {s : String} (hs : s ≠ "") (hne : stop ≠ .backslash)
    (hstop : branchSpecial stop.char ∨ stop.char ∉ s.toList) (rest : List Char) :
    Takes (until? stop (lex ((FormatString.escapeBranch s).toList ++ stop.char :: rest))) s
      (lex rest) := by
  obtain ⟨ts, hts, hlex⟩ := lex_escapeChars escaping_branchSpecial s.toList (breaks_mark stop rest)
  rw [toList_escapeBranch, hlex, lex_mark, takes_until?]
  exact ⟨by simpa using takes_branchText hts hne hstop (lex rest), hs⟩

/-! ## References to groups -/

/-- References that are read from source. -/
inductive ReadableFormat (d : Dialect) : FormatString → Prop where
  | plain {i : Nat} (hi : i < groupBound) : ReadableFormat d { index := i }
  | conversion {i : Nat} {name : String} (hi : i < groupBound) (hd : d.isUltiSnips = false)
      (hname : (word name).WellFormed) :
      ReadableFormat d { index := i, shorthand := some (.ofName name) }
  | ifText {i : Nat} {a : String} (hi : i < groupBound) (hd : d.isUltiSnips = false)
      (ha : a ≠ "") : ReadableFormat d { index := i, ifText := some a }
  | elseText {i : Nat} {b : String} (hi : i < groupBound) (hd : d.isUltiSnips = false)
      (hb : b ≠ "") : ReadableFormat d { index := i, elseText := some b }
  | both {i : Nat} {a b : String} (hi : i < groupBound) (hd : d.isUltiSnips = false)
      (ha : a ≠ "") (hcolon : ':' ∉ a.toList) (hb : b ≠ "") :
      ReadableFormat d { index := i, ifText := some a, elseText := some b }

theorem indexBelow?_eq_some {bound n : Nat} {ds : String} (h : indexBelow? bound ds = some n) :
    n < bound := by
  simp only [indexBelow?, Option.ite_none_right_eq_some, Option.some.injEq] at h
  exact h.2 ▸ h.1

theorem indexBelow?_toString {bound n : Nat} (h : n < bound) :
    indexBelow? bound (toString n) = some n := by
  unfold indexBelow?
  rw [ofDigits_toString]
  exact if_pos h

theorem readableFormat_until? {stop : Mark} {value : String} (hs : Sound ts)
    (h : Takes (until? stop ts) value rest) :
    value ≠ "" ∧ (stop.char ∈ value.toList → branchSpecial stop.char) := by
  rw [takes_until?] at h
  exact ⟨h.2, branchText_stop hs h.1⟩

theorem readableFormat_suffix {i : Nat} (hi : i < groupBound) (hd : d.isUltiSnips = false)
    {f : FormatString} (hs : Sound ts) (h : Takes (formatSuffix i ts) f rest) :
    ReadableFormat d f := by
  -- A text without a sign before it is one for no match, as one with a dash is
  have elseText {us : List Token} {b : String} (hs : Sound us)
      (hb : Takes (until? .braceClose us) b rest) :
      ReadableFormat d { index := i, elseText := some b } :=
    .elseText hi hd (readableFormat_until? hs hb).1
  fun_cases formatSuffix i ts with
  | case1 name rest =>
    obtain ⟨rfl, rfl⟩ := takes_some.1 h
    exact .conversion hi hd hs.tail.head
  | case2 ts hname =>
    rw [formatSuffix] at h
    · simp at h
    · exact hname
  | case3 ts =>
    obtain ⟨a, ha, rfl⟩ := h.of_map (fun a => { index := i, ifText := some a }) fun _ => ⟨rfl, rfl⟩
    exact .ifText hi hd (readableFormat_until? hs.tail ha).1
  | case4 ts =>
    obtain ⟨b, hb, rfl⟩ := h.of_map (fun b => { index := i, elseText := some b })
      fun _ => ⟨rfl, rfl⟩
    exact elseText hs.tail hb
  | case5 ts =>
    obtain ⟨a, ha, h⟩ := takes_bind.1 h
    obtain ⟨b, hb, h⟩ := takes_bind.1 h
    obtain ⟨rfl, rfl⟩ := takes_some.1 h
    have htakes := takes_of_eq_some ha
    obtain ⟨ha, hcolon⟩ := readableFormat_until? hs.tail htakes
    obtain ⟨hb, -⟩ := readableFormat_until? (hs.tail.of_suffix (suffix_until? htakes))
      (takes_of_eq_some hb)
    refine .both hi hd ha (fun hc => ?_) hb
    simp [branchSpecial, Mark.char] at hcolon
    exact hcolon hc
  | case6 =>
    rw [formatSuffix] at h
    · obtain ⟨b, hb, rfl⟩ :=
        h.of_map (fun b => { index := i, elseText := some b }) fun _ => ⟨rfl, rfl⟩
      exact elseText hs hb
    all_goals assumption

theorem readableFormat_rest {i : Nat} (hi : i < groupBound) {f : FormatString} (hs : Sound ts)
    (h : Takes (formatRest d i ts) f rest) : ReadableFormat d f := by
  fun_cases formatRest d i ts with
  | case1 rest =>
    obtain ⟨rfl, rfl⟩ := takes_some.1 h
    exact .plain hi
  | case2 ts hd => simp [formatRest, hd] at h
  | case3 ts hd =>
    rw [formatRest, if_neg hd] at h
    obtain ⟨f, hf, rfl⟩ := h.of_map id fun _ => ⟨rfl, rfl⟩
    exact readableFormat_suffix hi (by simpa using hd) hs.tail hf
  | case4 =>
    rw [formatRest] at h
    · simp at h
    all_goals assumption

/-- What is read as a reference to a group can be written as one. -/
theorem readableFormat_formatString {f : FormatString} (hs : Sound ts)
    (h : Takes (formatString d ts) f rest) : ReadableFormat d f := by
  obtain ⟨ds, i, hi, ⟨rfl, rfl⟩ | ⟨us, rfl, hrest⟩⟩ := formatString_cases h
  · exact .plain (indexBelow?_eq_some hi)
  · exact readableFormat_rest (indexBelow?_eq_some hi) hs.tail.tail hrest

theorem Shorthand.name_ofName (name : String) : (Shorthand.ofName name).name = name := by
  unfold Shorthand.ofName
  split <;> rfl

private theorem takes_formatString_braces {i : Nat} (hi : i < groupBound) {f : FormatString}
    (h : Takes (formatRest d i ts) f rest) :
    Takes (formatString d (mark .braceOpen :: digits (toString i) :: ts)) f rest := by
  obtain ⟨h, hr⟩ := h
  rw [formatString, indexBelow?_toString hi]
  exact takes_bind.2 ⟨_, hr, takes_some.2 ⟨rfl, rfl⟩⟩

private theorem takes_formatRest_colon {i : Nat} (hd : d.isUltiSnips = false) {f : FormatString}
    (h : Takes (formatSuffix i ts) f rest) : Takes (formatRest d i (mark .colon :: ts)) f rest := by
  rw [formatRest, if_neg (by simp [hd])]
  exact h.map id fun _ => ⟨rfl, rfl⟩

/-- The suffix of a reference is read as it is written. -/
private theorem takes_formatRest {f : FormatString} (hf : ReadableFormat d f) (rest : List Char) :
    Takes (formatRest d f.index (lex (f.suffix.toList ++ '}' :: rest))) f (lex rest) := by
  have hbreaks : Breaks ('}' :: rest) := breaks_mark .braceClose rest
  -- The last text of a reference goes to the brace, which is escaped in it
  have last {s : String} (hs : s ≠ "") : Takes (until? .braceClose
      (lex ((FormatString.escapeBranch s).toList ++ '}' :: rest))) s (lex rest) :=
    takes_until?_source .braceClose hs (by decide) (Or.inl rfl) rest
  cases hf with
  | @plain i hi =>
    have hlex : lex ((FormatString.suffix { index := i }).toList ++ '}' :: rest) =
        mark .braceClose :: lex rest := by simp [FormatString.suffix, lex_braceClose]
    rw [hlex, formatRest]
    exact takes_some.2 ⟨rfl, rfl⟩
  | @conversion i name hi hd hname =>
    have hlex : lex ((FormatString.suffix
        { index := i, shorthand := some (.ofName name) }).toList ++ '}' :: rest) =
          mark .colon :: mark .slash :: word name :: mark .braceClose :: lex rest := by
      have hword := lex_text_append hname (hbreaks.endsBefore _)
      rw [lex_braceClose] at hword
      rw [← hword, ← lex_mark, ← lex_mark]
      simp [FormatString.suffix, Shorthand.name_ofName, Mark.char, text]
    rw [hlex]
    apply takes_formatRest_colon hd
    rw [formatSuffix]
    exact takes_some.2 ⟨rfl, rfl⟩
  | @ifText i a hi hd ha =>
    have hlex : lex ((FormatString.suffix { index := i, ifText := some a }).toList ++ '}' :: rest) =
        mark .colon :: mark .plus ::
          lex ((FormatString.escapeBranch a).toList ++ '}' :: rest) := by
      rw [← lex_mark, ← lex_mark]
      simp [FormatString.suffix, Mark.char]
    rw [hlex]
    apply takes_formatRest_colon hd
    rw [formatSuffix]
    exact (last ha).map (fun a : String => FormatString.mk i none (some a) none) fun _ => ⟨rfl, rfl⟩
  | @elseText i b hi hd hb =>
    have hlex : lex ((FormatString.suffix { index := i, elseText := some b }).toList ++
        '}' :: rest) = mark .colon :: mark .dash ::
          lex ((FormatString.escapeBranch b).toList ++ '}' :: rest) := by
      rw [← lex_mark, ← lex_mark]
      simp [FormatString.suffix, Mark.char]
    rw [hlex]
    apply takes_formatRest_colon hd
    rw [formatSuffix]
    exact (last hb).map (fun b : String => FormatString.mk i none none (some b)) fun _ => ⟨rfl, rfl⟩
  | @both i a b hi hd ha hcolon hb =>
    have hlex : lex ((FormatString.suffix
        { index := i, ifText := some a, elseText := some b }).toList ++ '}' :: rest) =
          mark .colon :: mark .question :: lex ((FormatString.escapeBranch a).toList ++
            ':' :: ((FormatString.escapeBranch b).toList ++ '}' :: rest)) := by
      rw [← lex_mark, ← lex_mark]
      simp [FormatString.suffix, Mark.char]
    rw [hlex]
    apply takes_formatRest_colon hd
    rw [formatSuffix]
    -- The first of two texts goes to the colon, which is not in it
    have first : Takes (until? .colon (lex ((FormatString.escapeBranch a).toList ++
        ':' :: ((FormatString.escapeBranch b).toList ++ '}' :: rest)))) a
          (lex ((FormatString.escapeBranch b).toList ++ '}' :: rest)) :=
      takes_until?_source .colon ha (by decide) (Or.inr hcolon) _
    obtain ⟨_, ha⟩ := first
    obtain ⟨_, hb⟩ := last hb
    exact takes_bind.2 ⟨_, ha, takes_bind.2 ⟨_, hb, takes_some.2 ⟨rfl, rfl⟩⟩⟩

theorem ReadableFormat.index_lt {f : FormatString} (hf : ReadableFormat d f) :
    f.index < groupBound := by
  cases hf <;> assumption

/-- The suffix of a reference is empty or begins with a colon. -/
private theorem head?_suffix (f : FormatString) (rest : List Char) :
    ∀ c ∈ (f.suffix.toList ++ '}' :: rest).head?, isDigit c = false := by
  obtain ⟨i, shorthand, ifText, elseText⟩ := f
  cases shorthand <;> cases ifText <;> cases elseText <;>
    simp [FormatString.suffix, isDigit]

/-- A reference to a group is read as it is written. -/
theorem takes_formatString {f : FormatString} (hf : ReadableFormat d f) (rest : List Char) :
    Takes (formatString d (lex ('\x7b' :: ((toString f.index).toList ++ (f.suffix.toList ++
      '}' :: rest))))) f (lex rest) := by
  have hlex : lex ('\x7b' :: ((toString f.index).toList ++ (f.suffix.toList ++ '}' :: rest))) =
      mark .braceOpen :: digits (toString f.index) :: lex (f.suffix.toList ++ '}' :: rest) := by
    rw [← lex_number _ (head?_suffix f rest), ← lex_mark]
    rfl
  rw [hlex]
  exact takes_formatString_braces hf.index_lt (takes_formatRest hf rest)

end TabStop.Grammar

namespace TabStop

theorem TransformFlags.read_source (f : TransformFlags) : read f.source = .ok f := by
  simp only [read, source, String.toList_ofList]
  rcases f with ⟨_ | _, _ | _, _ | _, _ | _, _ | _, _ | _⟩ <;> rfl

theorem Transform.make_eq_ok {pattern : String} {pieces : List Piece} {flags : TransformFlags}
    {t : Transform} (h : make pattern pieces flags = .ok t) :
    t.pattern = pattern ∧ t.pieces = pieces := by
  unfold make at h
  split at h
  · cases h
    exact ⟨rfl, rfl⟩
  · simp at h

theorem Transform.make_self (t : Transform) : make t.pattern t.pieces t.flags = .ok t := by
  unfold make
  split
  next regex h =>
    have : some regex = some t.regex := h.symm.trans t.compiles
    cases this
    rfl
  next h =>
    have := h.symm.trans t.compiles
    simp at this

end TabStop
