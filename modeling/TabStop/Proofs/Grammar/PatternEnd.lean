import TabStop.Proofs.Grammar.CodeBlocks

/-!
# Where the pattern of a transform ends

In a pattern a backslash belongs together with the character after it, and a backslash that is the
second one of such a pair escapes nothing. The rule that takes the pattern off the tokens looks at
each backslash by itself. So it goes wrong exactly where an escaped backslash stands right before a
slash, which then does not end the pattern, or in UltiSnips before a `Z`, which is then taken for the
end of the text.
-/

namespace TabStop.Grammar

open Token

variable {d : Dialect} {cs ds : List Char} {ts us : List Token}

/-! ## Two ways of reading -/

/-- Whether a backslash before `c` is not left as it is. -/
def isJoined (d : Dialect) (c : Char) : Bool := c == '/' || (c == 'Z' && d.isUltiSnips)

/-- What a backslash and the character after it are in the pattern. -/
def pairText (d : Dialect) (c : Char) : List Char :=
  if c = '/' then ['/'] else if isJoined d c then ['\\', 'z'] else ['\\', c]

/-- What is read of a text, with `p` before it. -/
def prepend (p : List Char) (s : List Char × List Char) : List Char × List Char := (p ++ s.1, s.2)

/-- The pattern that a text begins with and the text behind the slash that ends it, where each
backslash is taken together with the character after it. -/
def pairSplit (d : Dialect) : List Char → Option (List Char × List Char)
  | [] => none
  | '/' :: cs => some ([], cs)
  | '\\' :: c :: cs => (pairSplit d cs).map (prepend (pairText d c))
  | c :: cs => (pairSplit d cs).map (prepend [c])

/-- The same where a backslash is taken by itself, but with the character after it if the two are
not left as they are. -/
def looseSplit (d : Dialect) : List Char → Option (List Char × List Char)
  | [] => none
  | '/' :: cs => some ([], cs)
  | '\\' :: c :: cs =>
    if isJoined d c then (looseSplit d cs).map (prepend (pairText d c))
    else (looseSplit d (c :: cs)).map (prepend ['\\'])
  | c :: cs => (looseSplit d cs).map (prepend [c])

/-- Whether the pattern that a text begins with holds no escaped backslash right before a slash or,
in UltiSnips, a `Z`. -/
def isClear (d : Dialect) : List Char → Bool
  | [] => true
  | '/' :: _ => true
  | '\\' :: c :: cs => !(c == '\\' && cs.head?.any (isJoined d)) && isClear d cs
  | _ :: cs => isClear d cs

@[simp] theorem looseSplit_slash (cs : List Char) : looseSplit d ('/' :: cs) = some ([], cs) := by
  rw [looseSplit]

theorem looseSplit_cons {c : Char} (hslash : c ≠ '/') (hback : c ≠ '\\') (cs : List Char) :
    looseSplit d (c :: cs) = (looseSplit d cs).map (prepend [c]) := by
  rw [looseSplit]
  · exact hslash
  · exact fun _ _ hc => absurd hc hback

theorem looseSplit_joined {c : Char} (hc : isJoined d c) (cs : List Char) :
    looseSplit d ('\\' :: c :: cs) = (looseSplit d cs).map (prepend (pairText d c)) := by
  rw [looseSplit, if_pos hc]

theorem looseSplit_backslash (hcs : cs.head?.any (isJoined d) = false) :
    looseSplit d ('\\' :: cs) = (looseSplit d cs).map (prepend ['\\']) := by
  cases cs with
  | nil => rfl
  | cons c cs =>
    rw [looseSplit, if_neg]
    simpa using hcs

@[simp] theorem map_prepend_map_prepend (p q : List Char) (s : Option (List Char × List Char)) :
    (s.map (prepend q)).map (prepend p) = s.map (prepend (p ++ q)) := by
  cases s <;> simp [prepend]

/-- Characters that are neither slashes nor backslashes stand for themselves. -/
theorem looseSplit_append {p : List Char} (hslash : '/' ∉ p) (hback : '\\' ∉ p) (cs : List Char) :
    looseSplit d (p ++ cs) = (looseSplit d cs).map (prepend p) := by
  induction p with
  | nil =>
    have hid : prepend [] = id := rfl
    rw [hid, Option.map_id]
    rfl
  | cons c p ih =>
    simp only [List.mem_cons, not_or] at hslash hback
    rw [List.cons_append, looseSplit_cons (Ne.symm hslash.1) (Ne.symm hback.1),
      ih hslash.2 hback.2, map_prepend_map_prepend]
    rfl

/-- A word after a backslash is taken with it only if it begins with a `Z`, in UltiSnips. -/
theorem looseSplit_backslash_word {w : List Char} (hw : ∃ c v, w = c :: v) (hslash : '/' ∉ w)
    (hback : '\\' ∉ w) (cs : List Char) :
    looseSplit d ('\\' :: (w ++ cs)) = (looseSplit d cs).map (prepend
      (if d.isUltiSnips ∧ w.head? = some 'Z' then '\\' :: 'z' :: w.tail else '\\' :: w)) := by
  obtain ⟨c, v, rfl⟩ := hw
  -- In UltiSnips a `Z` goes with the backslash before it, and comes out as a small letter
  by_cases hz : d.isUltiSnips ∧ c = 'Z'
  · obtain ⟨hd, rfl⟩ := hz
    simp only [List.mem_cons, not_or] at hslash hback
    have hjoined : isJoined d 'Z' := by simp [isJoined, hd]
    show looseSplit d ('\\' :: 'Z' :: (v ++ cs)) = _
    rw [looseSplit_joined hjoined, looseSplit_append hslash.2 hback.2, map_prepend_map_prepend]
    simp [pairText, hjoined, hd]
  · have hhead : (c :: v ++ cs).head?.any (isJoined d) = false := by
      simp only [List.mem_cons, not_or] at hslash
      simp only [List.cons_append, List.head?_cons, Option.any_some, isJoined, Bool.or_eq_false_iff,
        Bool.and_eq_false_iff, beq_eq_false_iff_ne]
      exact ⟨Ne.symm hslash.1, by by_cases hd : d.isUltiSnips <;> simp_all⟩
    rw [looseSplit_backslash hhead, looseSplit_append hslash hback, map_prepend_map_prepend,
      if_neg (by simpa using hz)]
    rfl

/-! ## What the rule reads -/

/-- No other token than a slash or a word begins with a character that a backslash joins. -/
theorem head?_not_isJoined (hslash : ∀ us, lex cs ≠ mark .slash :: us)
    (hword : ∀ w us, lex cs ≠ word w :: us) : cs.head?.any (isJoined d) = false := by
  -- The first character is that of the first token
  cases hcs : lex cs with
  | nil =>
    rcases exists_first cs with rfl | ⟨t, rest, ht, hrest, rfl⟩
    · rfl
    · simp [lex_text_append ht hrest] at hcs
  | cons t ts =>
    have ht : t.WellFormed := wellFormed_of_mem_lex (hcs ▸ List.mem_cons_self ..)
    have hmem : '/' ∉ t.text.toList :=
      ht.not_mem (m := .slash) fun h => hslash ts (h ▸ hcs)
    have hhead := head?_ne_Z ht fun w h => hword w ts (h ▸ hcs)
    rw [← head?_of_lex hcs]
    cases hc : t.text.toList.head? with
    | none => rfl
    | some c =>
      have hne : c ≠ '/' := fun h => hmem (h ▸ List.mem_of_head? hc)
      have hneZ : c ≠ 'Z' := fun h => hhead (h ▸ hc)
      simp [isJoined, hne, hneZ]

/-- What has been taken, as characters and the tokens after them. -/
def shown (r : Option (Taken String ts)) : Option (List Char × List Token) :=
  r.map fun t => (t.value.toList, t.rest)

/-- The tokens of what is left of a text. -/
def tokenized (s : List Char × List Char) : List Char × List Token := (s.1, lex s.2)

theorem shown_map {r : Option (Taken String ts)} {g : Taken String ts → Taken String us}
    (p : String) (hg : ∀ t, (g t).value = p ++ t.value ∧ (g t).rest = t.rest)
    {s : Option (List Char × List Char)} (h : shown r = s.map tokenized) :
    shown (r.map g) = (s.map (prepend p.toList)).map tokenized := by
  cases r with
  | none =>
    cases s with
    | none => rfl
    | some s => simp [shown] at h
  | some t =>
    cases s with
    | none => simp [shown] at h
    | some s =>
      obtain ⟨hvalue, hrest⟩ := hg t
      simp only [shown, Option.map_some, Option.some.injEq, tokenized, Prod.mk.injEq] at h
      simp [shown, tokenized, prepend, hvalue, hrest, h]

/-- The rule reads the tokens of a text as the text is read loosely. -/
theorem shown_regexPart (d : Dialect) (cs : List Char) :
    shown (regexPart d (lex cs)) = (looseSplit d cs).map tokenized := by
  generalize hts : lex cs = ts
  have hsound : Sound ts := hts ▸ sound_lex cs
  -- Along the rule: behind the tokens that are read the rest of the text gives the rest of the tokens
  fun_induction regexPart d ts generalizing cs with
  | case1 =>
    rcases exists_first cs with rfl | ⟨t, rest, ht, hrest, rfl⟩
    · rfl
    · simp [lex_text_append ht hrest] at hts
  | case2 ts =>
    obtain ⟨rest, rfl, -, rfl⟩ := of_lex_cons hts
    show some ([], lex rest) = (looseSplit d ('/' :: rest)).map tokenized
    simp [tokenized]
  | case3 ts ih =>
    obtain ⟨rest, rfl, -, hts⟩ := of_lex_cons hts
    obtain ⟨rest, rfl, -, rfl⟩ := of_lex_cons hts.symm
    have hjoined : isJoined d '/' := by simp [isJoined]
    show _ = (looseSplit d ('\\' :: '/' :: rest)).map tokenized
    rw [looseSplit_joined hjoined]
    exact shown_map "/" (by intro; exact ⟨rfl, rfl⟩) (ih rest rfl hsound.tail.tail)
  | case4 w ts start =>
    rename_i ih
    obtain ⟨rest, rfl, -, hts⟩ := of_lex_cons hts
    obtain ⟨rest, rfl, -, rfl⟩ := of_lex_cons hts.symm
    have hword := hsound.tail.head
    have hslash : '/' ∉ w.toList := hword.not_mem (m := .slash) (by simp)
    have hback : '\\' ∉ w.toList := hword.not_mem (m := .backslash) (by simp)
    have hstart : start.toList =
        if d.isUltiSnips ∧ w.toList.head? = some 'Z' then '\\' :: 'z' :: w.toList.tail
        else '\\' :: w.toList := by
      show (escapedWord d w).toList = _
      rcases toList_escapedWord d w with ⟨hplain, hz⟩ | ⟨cs, hd, hz, hjoined⟩
      · rw [hplain, if_neg]
        exact fun h => hz h.1 h.2
      · simp [hjoined, hd, hz]
    show _ = (looseSplit d ('\\' :: (w.toList ++ rest))).map tokenized
    rw [looseSplit_backslash_word (by obtain ⟨c, v, hv, -⟩ := hword; exact ⟨c, v, hv⟩) hslash hback,
      ← hstart]
    exact shown_map start (by intro; exact ⟨rfl, rfl⟩) (ih rest rfl hsound.tail.tail)
  | case5 t ts hslash hesc hword ih =>
    obtain ⟨rest, rfl, -, rfl⟩ := of_lex_cons hts
    have hplain : looseSplit d (t.text.toList ++ rest) =
        (looseSplit d rest).map (prepend t.text.toList) := by
      -- What comes after a backslash here is neither a slash nor a word, so nothing joined
      by_cases hback : t = mark .backslash
      · subst hback
        apply looseSplit_backslash
        apply head?_not_isJoined
        · exact fun us hus => hesc us rfl hus
        · exact fun w us hus => hword w us rfl hus
      · exact looseSplit_append (hsound.head.not_mem (m := .slash) hslash)
          (hsound.head.not_mem (m := .backslash) hback) rest
    rw [hplain]
    exact shown_map t.text (by intro; exact ⟨rfl, rfl⟩) (ih rest rfl hsound.tail)

/-! ## Where the two ways agree -/

/-- Unless it is an escaped backslash that something joined comes after, a pair is read as one. -/
theorem looseSplit_pair {c : Char} (hc : ¬(c = '\\' ∧ cs.head?.any (isJoined d))) :
    looseSplit d ('\\' :: c :: cs) = (looseSplit d cs).map (prepend (pairText d c)) := by
  by_cases hjoined : isJoined d c
  · exact looseSplit_joined hjoined cs
  · have hslash : c ≠ '/' := by rintro rfl; simp [isJoined] at hjoined
    have htext : pairText d c = ['\\'] ++ [c] := by simp [pairText, hslash, hjoined]
    rw [htext, looseSplit_backslash (by simpa using hjoined), ← map_prepend_map_prepend]
    congr 1
    by_cases hback : c = '\\'
    · subst hback
      exact looseSplit_backslash (by simpa using hc)
    · exact looseSplit_cons hslash hback cs

/-- Otherwise its second backslash is read with what comes after it. -/
theorem looseSplit_escaped {c : Char} (hc : isJoined d c) (cs : List Char) :
    looseSplit d ('\\' :: '\\' :: c :: cs) =
      (looseSplit d cs).map (prepend ('\\' :: pairText d c)) := by
  have hback : ('\\' :: c :: cs).head?.any (isJoined d) = false := by simp [isJoined]
  rw [looseSplit_backslash hback, looseSplit_joined hc, map_prepend_map_prepend]
  rfl

/-- What is joined is a slash or a letter that stands for itself. -/
theorem eq_slash_or_plain {c : Char} (hc : isJoined d c) : c = '/' ∨ c ≠ '/' ∧ c ≠ '\\' := by
  by_cases hslash : c = '/'
  · exact Or.inl hslash
  · refine Or.inr ⟨hslash, ?_⟩
    rintro rfl
    simp [isJoined] at hc

/-- The second one of an escaped backslash, before something joined. -/
theorem exists_joined {c : Char} (h : c = '\\' ∧ cs.head?.any (isJoined d)) :
    c = '\\' ∧ ∃ x rest, cs = x :: rest ∧ isJoined d x := by
  refine ⟨h.1, ?_⟩
  cases cs with
  | nil => simp at h
  | cons x rest => exact ⟨x, rest, rfl, by simpa using h.2⟩

theorem isClear_pair {c : Char} (hc : ¬(c = '\\' ∧ cs.head?.any (isJoined d))) :
    isClear d ('\\' :: c :: cs) = isClear d cs := by
  have : (c == '\\' && cs.head?.any (isJoined d)) = false := by simpa using hc
  rw [isClear, this]
  rfl

/-- Where nothing joined comes after an escaped backslash the two ways agree. -/
theorem looseSplit_eq_pairSplit (h : isClear d cs) : looseSplit d cs = pairSplit d cs := by
  fun_induction pairSplit d cs with
  | case1 => rfl
  | case2 cs => exact looseSplit_slash cs
  | case3 c cs ih =>
    have hc : ¬(c = '\\' ∧ cs.head?.any (isJoined d)) := by
      intro hc
      simp [isClear, hc] at h
    rw [isClear_pair hc] at h
    rw [looseSplit_pair hc, ih h]
  | case4 c cs hslash hback ih =>
    rw [isClear] at h
    · rw [looseSplit, ih h]
      · exact hslash
      · exact hback
    · exact hslash
    · exact hback

/-- A pattern without an end is without one either way. -/
theorem looseSplit_eq_none (h : pairSplit d cs = none) : looseSplit d cs = none := by
  fun_induction pairSplit d cs with
  | case1 => rfl
  | case2 cs => simp at h
  | case3 c cs ih =>
    have hloose := ih (Option.map_eq_none_iff.1 h)
    by_cases hc : c = '\\' ∧ cs.head?.any (isJoined d)
    · obtain ⟨rfl, x, rest, rfl, hx⟩ := exists_joined hc
      -- A slash would end the pattern right here, so it is a letter
      rcases eq_slash_or_plain hx with rfl | ⟨hslash, hback⟩
      · simp at hloose
      · rw [looseSplit_cons hslash hback, Option.map_eq_none_iff] at hloose
        rw [looseSplit_escaped hx, hloose]
        rfl
    · rw [looseSplit_pair hc, hloose]
      rfl
  | case4 c cs hslash hback ih =>
    rw [looseSplit, ih (Option.map_eq_none_iff.1 h)]
    · rfl
    · exact hslash
    · exact hback

/-- The two ways give one pattern only where nothing joined comes after an escaped backslash. -/
theorem isClear_of_pattern {s : List Char × List Char} (hs : pairSplit d cs = some s)
    (h : (looseSplit d cs).map Prod.fst = some s.1) : isClear d cs := by
  fun_induction pairSplit d cs generalizing s with
  | case1 => simp at hs
  | case2 cs => rfl
  | case3 c cs ih =>
    obtain ⟨t, ht, rfl⟩ := Option.map_eq_some_iff.1 hs
    by_cases hc : c = '\\' ∧ cs.head?.any (isJoined d)
    · obtain ⟨rfl, x, rest, rfl, hx⟩ := exists_joined hc
      obtain ⟨r, hr, hfst⟩ := Option.map_eq_some_iff.1 h
      rw [looseSplit_escaped hx] at hr
      obtain ⟨r, -, rfl⟩ := Option.map_eq_some_iff.1 hr
      -- The second character of the one is a slash, or the third one of it a `z` and no `Z`
      by_cases hslash : x = '/'
      · subst hslash
        simp [prepend, pairText, isJoined] at hfst
      · have hZ : x = 'Z' := by
          simp only [isJoined, Bool.or_eq_true, Bool.and_eq_true, beq_iff_eq] at hx
          exact (hx.resolve_left hslash).1
        subst hZ
        have hd : d.isUltiSnips := by simpa [isJoined] using hx
        rw [pairSplit] at ht
        · obtain ⟨u, -, rfl⟩ := Option.map_eq_some_iff.1 ht
          simp [prepend, pairText, isJoined, hd] at hfst
        · exact hslash
        · simp
    · rw [isClear_pair hc]
      obtain ⟨r, hr, hfst⟩ := Option.map_eq_some_iff.1 h
      rw [looseSplit_pair hc] at hr
      obtain ⟨r, hloose, rfl⟩ := Option.map_eq_some_iff.1 hr
      apply ih ht
      rw [hloose]
      exact congrArg some (List.append_cancel_left hfst)
  | case4 c cs hslash hback ih =>
    obtain ⟨t, ht, rfl⟩ := Option.map_eq_some_iff.1 hs
    obtain ⟨r, hr, hfst⟩ := Option.map_eq_some_iff.1 h
    rw [looseSplit] at hr
    · obtain ⟨r, hloose, rfl⟩ := Option.map_eq_some_iff.1 hr
      rw [isClear]
      · apply ih ht
        rw [hloose]
        exact congrArg some (List.append_cancel_left hfst)
      · exact hslash
      · exact hback
    · exact hslash
    · exact hback

/-! ## The pattern of a transform -/

/-- The pattern of a transform is what the rule for the pattern has read. -/
theorem regexPart_of_transform {r : Taken Transform ts} (h : transform d ts = some r) :
    ∃ p, regexPart d ts = some p ∧ p.value = r.value.pattern := by
  have htakes := takes_of_eq_some h
  obtain ⟨pattern, hpattern, htakes⟩ := takes_bind.1 htakes
  obtain ⟨pieces, -, htakes⟩ := takes_bind.1 htakes
  obtain ⟨letters, -, htakes⟩ := takes_bind.1 htakes
  simp only at htakes
  split at htakes
  · simp at htakes
  next made hmade =>
    obtain ⟨hvalue, -⟩ := takes_some.1 htakes
    -- Flags that are read make a transform of the pattern as it is
    cases hflags : TransformFlags.read letters.value with
    | error => simp [hflags, bind, Except.bind] at hmade
    | ok flags =>
      simp only [hflags, bind, Except.bind] at hmade
      refine ⟨pattern, hpattern, ?_⟩
      rw [← hvalue]
      exact (Transform.make_eq_ok hmade).1.symm

/-- The pattern is the text before the first slash that has no backslash right before it: this is
what pairs give, and the transform has the pattern that pairs give, exactly where nothing joined
comes after an escaped backslash. -/
theorem transform_pattern (d : Dialect) (cs : List Char) :
    shown (regexPart d (lex cs)) = (looseSplit d cs).map tokenized ∧
      (looseSplit d cs = pairSplit d cs ↔ pairSplit d cs = none ∨ isClear d cs) ∧
      ∀ r, transform d (lex cs) = some r →
        (looseSplit d cs).map Prod.fst = some r.value.pattern.toList ∧
        ((pairSplit d cs).map Prod.fst = some r.value.pattern.toList ↔ isClear d cs) := by
  refine ⟨shown_regexPart d cs, ⟨fun heq => ?_, fun h => ?_⟩, fun r hr => ?_⟩
  -- Without an end by pairs there is none for the rule; otherwise the patterns have to agree
  · cases hs : pairSplit d cs with
    | none => exact Or.inl rfl
    | some s => exact Or.inr (isClear_of_pattern hs (by rw [heq, hs]; rfl))
  · rcases h with h | h
    · rw [looseSplit_eq_none h, h]
    · exact looseSplit_eq_pairSplit h
  · have hpattern : (looseSplit d cs).map Prod.fst = some r.value.pattern.toList := by
      obtain ⟨p, hp, hvalue⟩ := regexPart_of_transform hr
      have hshown := shown_regexPart d cs
      rw [hp] at hshown
      obtain ⟨s, hs, htokens⟩ := Option.map_eq_some_iff.1 hshown.symm
      rw [hs, ← hvalue]
      exact congrArg (fun s => some s.1) htokens
    refine ⟨hpattern, fun hpair => ?_, fun h => looseSplit_eq_pairSplit h ▸ hpattern⟩
    obtain ⟨s, hs, hfst⟩ := Option.map_eq_some_iff.1 hpair
    exact isClear_of_pattern hs (hfst ▸ hpattern)

/-- A backslash, a slash and a `b` after an `a`. -/
def slashed : Transform :=
  ⟨"a\\/b", {}, [.text "c"],
    (Regex.compile? ({} : TransformFlags).forPattern "a\\/b").get (by cbv), by simp⟩

/-- The first slash of `a\\/b/c/` is not the end of the pattern. -/
theorem transform_pattern_escapedBackslash :
    ∃ r, transform .textMate (lex "a\\\\/b/c/\x7d".toList) = some r ∧
      r.value.pattern = "a\\/b" ∧
      (pairSplit .textMate "a\\\\/b/c/\x7d".toList).map Prod.fst = some "a\\\\".toList ∧
      ¬isClear .textMate "a\\\\/b/c/\x7d".toList ∧
      (pairSplit .textMate "a\\\\/b/c/\x7d".toList).map Prod.fst ≠
        some r.value.pattern.toList := by
  have hreadable : ReadableTransform .textMate slashed := by
    refine ⟨?_, ?_, by simp, trivial⟩
    · simp [slashed, PatternWritable, Dialect.isUltiSnips]
    · simp [Piece.Readable]
  -- The text is how this transform is written, so it is read as the transform
  have hsource : (slashed.source .textMate).toList ++ ['\x7d'] = "a\\\\/b/c/\x7d".toList := by
    decide
  have htakes := takes_transform hreadable []
  rw [hsource] at htakes
  obtain ⟨_, hr⟩ := htakes
  obtain ⟨-, -, hpattern⟩ := transform_pattern .textMate "a\\\\/b/c/\x7d".toList
  obtain ⟨hloose, hpair⟩ := hpattern _ hr
  refine ⟨_, hr, ?_, by decide, by decide, ?_⟩
  · exact String.toList_injective (Option.some.inj hloose).symm
  · intro heq
    exact absurd (hpair.1 heq) (by decide)

end TabStop.Grammar
