import TabStop.Proofs.Text.Blanks
import TabStop.Text.Lines

/-!
# Trimmed and dedented texts

Blanks are taken off the ends of code when it is read, and off the starts of its lines. What is left
has no blanks at its end, is no longer than before, and each backtick in it still stands right behind
its backslash. And from the start of a line on, a text that begins with no blank is kept as it is, but
for the carriage returns at the ends of its lines.
-/

namespace TabStop.Text

open Unicode

variable {cs ds : List Char}

/-! ## Trimmed texts -/

theorem trimStart_suffix (cs : List Char) : trimStart cs <:+ cs := List.dropWhile_suffix _

theorem prefix_trimEnd (cs : List Char) : trimEnd cs <+: cs := by
  have h := (List.dropWhile_suffix (l := cs.reverse) isSpace).reverse
  rwa [List.reverse_reverse] at h

theorem head?_trimStart (cs : List Char) : ∀ c ∈ (trimStart cs).head?, isSpace c = false := by
  intro c hc
  have h := List.head?_dropWhile_not isSpace cs
  rw [trimStart] at hc
  rw [Option.mem_def.1 hc] at h
  simpa using h

theorem getLast?_trimEnd (cs : List Char) : ∀ c ∈ (trimEnd cs).getLast?, isSpace c = false := by
  rw [trimEnd, List.getLast?_reverse]
  exact head?_trimStart cs.reverse

theorem trimStart_of_head? (h : ∀ c ∈ cs.head?, isSpace c = false) : trimStart cs = cs := by
  cases cs with
  | nil => rfl
  | cons c cs => simp [trimStart, h c rfl]

theorem trimEnd_of_getLast? (h : ∀ c ∈ cs.getLast?, isSpace c = false) : trimEnd cs = cs := by
  have hstart : trimStart cs.reverse = cs.reverse := by
    apply trimStart_of_head?
    rwa [List.head?_reverse]
  rw [trimEnd]
  exact (congrArg List.reverse hstart).trans (List.reverse_reverse cs)

theorem head?_mono (h : ds <+: cs) {c : Char} (hc : c ∈ ds.head?) : c ∈ cs.head? := by
  obtain ⟨es, rfl⟩ := h
  rw [List.head?_append, Option.mem_def.1 hc]
  rfl

theorem head?_trim (cs : List Char) : ∀ c ∈ (trim cs).head?, isSpace c = false :=
  fun c hc => head?_trimStart cs c (head?_mono (prefix_trimEnd _) hc)

theorem trim_trim (cs : List Char) : trim (trim cs) = trim cs := by
  rw [trim.eq_def (trim cs), trimStart_of_head? (head?_trim cs)]
  exact trimEnd_of_getLast? (getLast?_trimEnd _)

theorem trimStart_cons {c : Char} (hc : isSpace c) (cs : List Char) :
    trimStart (c :: cs) = trimStart cs := List.dropWhile_cons_of_pos hc

theorem trim_cons {c : Char} (hc : isSpace c) (cs : List Char) : trim (c :: cs) = trim cs := by
  rw [trim, trimStart_cons hc, trim]

/-- Only a text that begins with a blank gets shorter. -/
theorem length_trimStart_lt (h : ∃ c ∈ cs.head?, isSpace c) :
    (trimStart cs).length < cs.length := by
  obtain ⟨c, hc, hspace⟩ := h
  obtain ⟨ds, rfl⟩ := List.head?_eq_some_iff.1 hc
  rw [trimStart_cons hspace]
  exact Nat.lt_succ_of_le (trimStart_suffix ds).length_le

/-! ## Lines -/

theorem length_dropReturn_le (line : List Char) : (dropReturn line).length ≤ line.length := by
  unfold dropReturn
  split
  · exact (List.dropLast_prefix line).length_le
  · exact Nat.le_refl _

theorem prefix_dropReturn (line : List Char) : dropReturn line <+: line := by
  unfold dropReturn
  split
  · exact List.dropLast_prefix line
  · exact List.prefix_rfl

/-- A line loses nothing exactly if it does not end with a carriage return. -/
theorem length_dropReturn_eq {line : List Char} :
    (dropReturn line).length = line.length ↔ line.getLast? ≠ some '\r' := by
  unfold dropReturn
  split
  next h =>
    have hne : line ≠ [] := by
      rintro rfl
      simp at h
    have := List.length_pos_of_ne_nil hne
    simp only [List.length_dropLast, h, ne_eq, not_true_eq_false, iff_false]
    omega
  next h => simp [h]

theorem unlines_cons {l : List Char} {ls : List (List Char)} (h : ls ≠ []) :
    unlines (l :: ls) = l ++ '\n' :: unlines ls := by
  cases ls with
  | nil => exact absurd rfl h
  | cons => rfl

theorem linesFrom_eq_nil {line : List Char} : linesFrom line cs = [] ↔ line = [] ∧ cs = [] := by
  induction cs generalizing line with
  | nil => cases line <;> simp [linesFrom]
  | cons c cs ih =>
    rw [linesFrom]
    split
    · simp
    · simp [ih]

/-- Lines that have been made no longer are no longer put together. -/
theorem length_unlines_map_le {f : List Char → List Char} (hf : ∀ l, (f l).length ≤ l.length)
    (line cs : List Char) :
    (unlines ((linesFrom line cs).map f)).length ≤ line.length + cs.length := by
  induction cs generalizing line with
  | nil =>
    rw [linesFrom]
    split
    · exact Nat.zero_le _
    · exact hf line
  | cons c cs ih =>
    rw [linesFrom]
    split
    -- The line feed is there again if it is not at the very end
    · have hfirst := (hf (dropReturn line)).trans (length_dropReturn_le line)
      by_cases hcs : linesFrom [] cs = []
      · simp only [hcs, List.map_cons, List.map_nil, unlines, List.length_cons]
        omega
      · have hrest := ih []
        rw [List.map_cons, unlines_cons (by simpa using hcs), List.length_append, List.length_cons,
          List.length_cons]
        simp only [List.length_nil] at hrest
        omega
    · have hrest := ih (line ++ [c])
      simp only [List.length_append, List.length_singleton] at hrest
      simp only [List.length_cons]
      omega

theorem length_unlines_lines_le (cs : List Char) : (unlines (lines cs)).length ≤ cs.length := by
  simpa [lines] using length_unlines_map_le (f := id) (fun _ => Nat.le_refl _) [] cs

/-- A carriage return stands right before a line feed. -/
def HoldsReturn (cs : List Char) : Prop := ['\r', '\n'] <:+: cs

theorem holdsReturn_append {line : List Char} (hline : '\n' ∉ line) :
    HoldsReturn (line ++ '\n' :: cs) ↔ line.getLast? = some '\r' ∨ HoldsReturn cs := by
  constructor
  · rintro ⟨before, after, h⟩
    have h : before ++ '\r' :: '\n' :: after = line ++ '\n' :: cs := by simpa using h
    rcases List.append_eq_append_iff.1 h with ⟨more, rfl, hmore⟩ | ⟨more, rfl, hmore⟩
    · -- The line ends with the carriage return, as no line feed is in it
      match more with
      | [] => simp at hmore
      | [c] =>
        obtain ⟨rfl, -⟩ : '\r' = c ∧ _ := by simpa using hmore
        exact Or.inl (by simp)
      | c :: c' :: more =>
        obtain ⟨-, rfl, -⟩ : '\r' = c ∧ '\n' = c' ∧ _ := by simpa using hmore
        simp at hline
    · match more with
      | [] => simp at hmore
      | c :: more =>
        obtain ⟨-, rfl⟩ : '\n' = c ∧ cs = more ++ '\r' :: '\n' :: after := by simpa using hmore
        exact Or.inr ⟨more, after, by simp⟩
  · rintro (h | ⟨before, after, rfl⟩)
    · obtain ⟨init, rfl⟩ := List.getLast?_eq_some_iff.1 h
      exact ⟨init, cs, by simp⟩
    · exact ⟨line ++ '\n' :: before, after, by simp⟩

theorem not_holdsReturn {line : List Char} (hline : '\n' ∉ line) : ¬HoldsReturn line :=
  fun h => hline (h.subset (by simp))

/-- The lines of a text that ends with no line feed, put together again, are the text, exactly if no
carriage return belongs to a line end. -/
theorem unlines_linesFrom {line : List Char} (hline : '\n' ∉ line)
    (hlast : (line ++ cs).getLast? ≠ some '\n') :
    unlines (linesFrom line cs) = line ++ cs ↔ ¬HoldsReturn (line ++ cs) := by
  induction cs generalizing line with
  | nil =>
    rw [List.append_nil]
    refine iff_of_true ?_ (not_holdsReturn hline)
    cases line <;> simp [linesFrom, unlines]
  | cons c cs ih =>
    rw [linesFrom]
    split
    next hc =>
      subst hc
      have hcs : cs ≠ [] := by
        rintro rfl
        simp at hlast
      have hlast' : ([] ++ cs).getLast? ≠ some '\n' := by
        rwa [List.getLast?_append_cons, List.getLast?_cons_of_ne_nil hcs] at hlast
      have hrest := @ih [] (by simp) hlast'
      rw [List.nil_append] at hrest
      rw [unlines_cons (by simp [linesFrom_eq_nil, hcs]), holdsReturn_append hline, not_or, ← hrest,
        ← ne_eq, ← length_dropReturn_eq]
      -- Both parts of the text are no longer than before
      have hfirst := length_dropReturn_le line
      have hmore := length_unlines_lines_le cs
      constructor
      · intro h
        have hlength := congrArg List.length h
        simp only [List.length_append, List.length_cons, lines] at hlength hmore
        have hsame : (dropReturn line).length = line.length := by omega
        exact ⟨hsame, (List.cons.inj (List.append_inj h hsame).2).2⟩
      · rintro ⟨hsame, hcs⟩
        rw [(prefix_dropReturn line).eq_of_length hsame, hcs]
    next hc =>
      have hline' : '\n' ∉ line ++ [c] := by simpa [hline] using Ne.symm hc
      have h := ih hline' (by rwa [List.append_assoc])
      simpa using h

/-! ## Dedented texts -/

theorem dropBytes?_suffix {n : Nat} (h : dropBytes? n cs = some ds) : ds <:+ cs := by
  induction cs generalizing n with
  | nil =>
    obtain ⟨-, rfl⟩ : n = 0 ∧ [] = ds := by simpa [dropBytes?] using h
    exact List.suffix_rfl
  | cons c cs ih =>
    rw [dropBytes?] at h
    split at h
    · obtain rfl := Option.some.inj h
      exact List.suffix_rfl
    · split at h
      · exact (ih h).trans (List.suffix_cons ..)
      · simp at h

@[simp] theorem dropBytes?_zero (cs : List Char) : dropBytes? 0 cs = some cs := by
  cases cs <;> rfl

/-- A line without the indentation that all lines share. -/
def dedentLine (n : Nat) (line : List Char) : List Char :=
  (dropBytes? n line).getD (trimStart line)

theorem dedent_eq (cs : List Char) :
    dedent cs = unlines ((lines cs).map (dedentLine (commonIndentation (lines cs)))) := rfl

theorem dedentLine_suffix (n : Nat) (line : List Char) : dedentLine n line <:+ line := by
  unfold dedentLine
  cases h : dropBytes? n line with
  | none => exact trimStart_suffix line
  | some ds => exact dropBytes?_suffix h

theorem length_dedent_le (cs : List Char) : (dedent cs).length ≤ cs.length := by
  rw [dedent_eq]
  have hline (n : Nat) (l : List Char) : (dedentLine n l).length ≤ l.length :=
    (dedentLine_suffix n l).length_le
  simpa [lines] using length_unlines_map_le (hline (commonIndentation (lines cs))) [] cs

/-- The first line begins as the text does, if that is with no blank. -/
theorem head?_linesFrom (line : List Char) {c : Char} (hc : isSpace c = false)
    (h : (line ++ cs).head? = some c) : ∃ l ∈ linesFrom line cs, l.head? = some c := by
  induction cs generalizing line with
  | nil =>
    rw [List.append_nil] at h
    refine ⟨line, ?_, h⟩
    cases line with
    | nil => simp at h
    | cons => simp [linesFrom]
  | cons x cs ih =>
    rw [linesFrom]
    split
    next hx =>
      subst hx
      refine ⟨dropReturn line, List.mem_cons_self .., ?_⟩
      cases line with
      | nil =>
        obtain rfl : '\n' = c := by simpa using h
        simp [isSpace_lineFeed] at hc
      | cons y line =>
        obtain rfl : y = c := by simpa using h
        -- A line that is nothing but a carriage return begins with a blank
        unfold dropReturn
        split
        next hlast =>
          cases line with
          | nil =>
            obtain rfl : y = '\r' := by simpa using hlast
            simp [isSpace_return] at hc
          | cons => simp
        next => rfl
    next => exact ih (line ++ [x]) (by simpa using h)

theorem commonIndentation_eq_zero {ls : List (List Char)} {l : List Char} (hl : l ∈ ls)
    {c : Char} (hc : isSpace c = false) (hhead : l.head? = some c) : commonIndentation ls = 0 := by
  obtain ⟨cs, rfl⟩ := List.head?_eq_some_iff.1 hhead
  have hblank : isBlank (c :: cs) = false := by simp [isBlank, hc]
  have hzero : indentation (c :: cs) = 0 := by
    rw [indentation, trimStart_of_head? (by simpa using hc), Nat.sub_self]
  have hmem : 0 ∈ (ls.filter (!isBlank ·)).map indentation :=
    List.mem_map.2 ⟨_, List.mem_filter.2 ⟨hl, by simp [hblank]⟩, hzero⟩
  rw [commonIndentation]
  cases hmin : ((ls.filter (!isBlank ·)).map indentation).min? with
  | none => rfl
  | some n => exact Nat.le_zero.1 ((List.min?_eq_some_iff.1 hmin).2 0 hmem)

/-- A text that begins with no blank has no indentation. -/
theorem dedent_of_head? {c : Char} (hc : isSpace c = false) (h : cs.head? = some c) :
    dedent cs = unlines (lines cs) := by
  obtain ⟨l, hl, hhead⟩ : ∃ l ∈ lines cs, l.head? = some c := head?_linesFrom [] hc h
  have hzero : commonIndentation (lines cs) = 0 := commonIndentation_eq_zero hl hc hhead
  have hid : dedentLine 0 = id := by
    funext line
    simp [dedentLine]
  rw [dedent_eq, hzero, hid, List.map_id]

/-! ## Guarded backticks -/

/-- Each backtick stands right behind a backslash. -/
def Guarded (cs : List Char) : Prop :=
  ∀ before after, cs = before ++ '`' :: after → before.getLast? = some '\\'

theorem guarded_of_not_mem (h : '`' ∉ cs) : Guarded cs := by
  rintro before after rfl
  simp at h

theorem Guarded.of_prefix (h : Guarded cs) (hds : ds <+: cs) : Guarded ds := by
  obtain ⟨es, rfl⟩ := hds
  rintro before after rfl
  exact h before (after ++ es) (by simp)

/-- The end of a text may begin with a backtick only right behind a backslash. -/
theorem Guarded.of_append {before : List Char} (h : Guarded (before ++ cs))
    (hlast : before.getLast? ≠ some '\\') : Guarded cs := by
  rintro init after rfl
  have hguard := h (before ++ init) after (by simp)
  rcases List.eq_nil_or_concat init with rfl | ⟨init, c, rfl⟩
  · simp [hlast] at hguard
  · simpa using hguard

theorem Guarded.append (h : Guarded cs) (h' : Guarded ds) : Guarded (cs ++ ds) := by
  intro before after heq
  rcases List.append_eq_append_iff.1 heq with ⟨more, rfl, hmore⟩ | ⟨more, rfl, hmore⟩
  · have hlast := h' more after hmore
    rw [List.getLast?_append, hlast]
    rfl
  · match more with
    | [] => exact absurd (h' [] after (by simpa using hmore.symm)) (by simp)
    | c :: more =>
      obtain ⟨rfl, -⟩ : '`' = c ∧ _ := by simpa using hmore
      exact h before more rfl

theorem Guarded.cons {c : Char} (hc : c ≠ '`') (h : Guarded cs) : Guarded (c :: cs) := by
  have hfirst : Guarded [c] := guarded_of_not_mem (by simpa using hc.symm)
  exact hfirst.append h

/-- A backtick with its backslash. -/
theorem guarded_escaped : Guarded ['\\', '`'] := by
  intro before after heq
  match before with
  | [] => simp at heq
  | [c] =>
    obtain ⟨rfl, -⟩ : '\\' = c ∧ _ := by simpa using heq
    rfl
  | c :: c' :: before => simp at heq

/-- A backtick is guarded behind a text that ends with a backslash. -/
theorem Guarded.tick (h : Guarded cs) (hlast : cs.getLast? = some '\\') :
    Guarded (cs ++ ['`']) := by
  intro before after heq
  rcases List.append_eq_append_iff.1 heq with ⟨more, rfl, hmore⟩ | ⟨more, rfl, hmore⟩
  · cases more with
    | nil => simpa using hlast
    | cons c more => simp at hmore
  · match more with
    | [] => simpa using hlast
    | c :: more =>
      obtain ⟨rfl, -⟩ : '`' = c ∧ _ := by simpa using hmore
      exact h before more rfl

/-- What is behind blanks is guarded as before. -/
theorem Guarded.of_blanks {before : List Char} (h : Guarded (before ++ cs))
    (hblank : ∀ c ∈ before, isSpace c) : Guarded cs := by
  refine h.of_append fun hlast => ?_
  have := hblank '\\' (List.mem_of_getLast? hlast)
  simp [not_isSpace_backslash] at this

theorem Guarded.trimStart (h : Guarded cs) : Guarded (trimStart cs) := by
  rw [← List.takeWhile_append_dropWhile (p := isSpace) (l := cs)] at h
  exact h.of_blanks (List.all_eq_true.1 List.all_takeWhile)

theorem Guarded.trimEnd (h : Guarded cs) : Guarded (trimEnd cs) := h.of_prefix (prefix_trimEnd cs)

theorem Guarded.trim (h : Guarded cs) : Guarded (trim cs) := h.trimStart.trimEnd

theorem Guarded.linesFrom {line : List Char} (h : Guarded (line ++ cs)) :
    ∀ l ∈ linesFrom line cs, Guarded l := by
  induction cs generalizing line with
  | nil =>
    rw [List.append_nil] at h
    cases line <;> simp_all [Text.linesFrom]
  | cons c cs ih =>
    rw [Text.linesFrom]
    split
    next hc =>
      have hline : Guarded line := h.of_prefix (List.prefix_append ..)
      have hcs : Guarded cs := by
        rw [List.append_cons] at h
        exact h.of_append (by simp [hc])
      exact List.forall_mem_cons.2 ⟨hline.of_prefix (prefix_dropReturn line), ih hcs⟩
    next => exact ih (by simpa using h)

theorem Guarded.unlines {ls : List (List Char)} (h : ∀ l ∈ ls, Guarded l) :
    Guarded (unlines ls) := by
  induction ls with
  | nil => exact guarded_of_not_mem (by simp [Text.unlines])
  | cons l ls ih =>
    obtain ⟨hl, hls⟩ := List.forall_mem_cons.1 h
    by_cases hne : ls = []
    · simpa [hne, Text.unlines] using hl
    · rw [unlines_cons hne]
      exact hl.append ((ih hls).cons (by decide))

theorem byteLength_trimStart_le (cs : List Char) : byteLength (trimStart cs) ≤ byteLength cs := by
  induction cs with
  | nil => exact Nat.le_refl _
  | cons c cs ih =>
    rw [Text.trimStart, List.dropWhile_cons]
    split
    · exact ih.trans (Nat.le_add_left ..)
    · exact Nat.le_refl _

/-- No more than the indentation is cut off, so what is cut off are blanks. -/
theorem dropBytes?_blanks {n : Nat} (h : dropBytes? n cs = some ds) (hn : n ≤ indentation cs) :
    ∃ before, cs = before ++ ds ∧ ∀ c ∈ before, isSpace c := by
  induction cs generalizing n with
  | nil => exact ⟨[], by simpa using (List.suffix_nil.1 (dropBytes?_suffix h)).symm, by simp⟩
  | cons c cs ih =>
    rw [dropBytes?] at h
    split at h
    · exact ⟨[], Option.some.inj h, by simp⟩
    next hne =>
      -- There is something to drop, so the line begins with a blank
      have hspace : isSpace c := by
        by_contra hc
        rw [indentation, trimStart_of_head? (by simpa using hc), Nat.sub_self] at hn
        exact hne (Nat.le_zero.1 hn)
      split at h
      next hle =>
        have hrest : n - c.utf8Size ≤ indentation cs := by
          have := byteLength_trimStart_le cs
          rw [indentation, trimStart_cons hspace, byteLength] at hn
          rw [indentation]
          omega
        obtain ⟨before, rfl, hblank⟩ := ih h hrest
        exact ⟨c :: before, rfl, List.forall_mem_cons.2 ⟨hspace, hblank⟩⟩
      next => simp at h

theorem commonIndentation_le {ls : List (List Char)} {l : List Char} (hl : l ∈ ls)
    (hblank : isBlank l = false) : commonIndentation ls ≤ indentation l := by
  have hmem : indentation l ∈ (ls.filter (!isBlank ·)).map indentation :=
    List.mem_map_of_mem (List.mem_filter.2 ⟨hl, by simp [hblank]⟩)
  rw [commonIndentation]
  cases hmin : ((ls.filter (!isBlank ·)).map indentation).min? with
  | none => exact Nat.zero_le _
  | some n => exact (List.min?_eq_some_iff.1 hmin).2 _ hmem

theorem Guarded.dedentLine {ls : List (List Char)} {l : List Char} (h : Guarded l) (hl : l ∈ ls) :
    Guarded (dedentLine (commonIndentation ls) l) := by
  unfold Text.dedentLine
  cases hdrop : dropBytes? (commonIndentation ls) l with
  | none => exact h.trimStart
  | some ds =>
    cases hblank : isBlank l with
    | true =>
      -- There is nothing but blanks, of which a backtick is none
      refine guarded_of_not_mem fun hmem => ?_
      have := List.all_eq_true.1 hblank '`' ((dropBytes?_suffix hdrop).subset hmem)
      simp [not_isSpace_backtick] at this
    | false =>
      obtain ⟨before, rfl, hspaces⟩ := dropBytes?_blanks hdrop (commonIndentation_le hl hblank)
      exact h.of_blanks hspaces

theorem Guarded.dedent (h : Guarded cs) : Guarded (dedent cs) := by
  rw [dedent_eq]
  refine Guarded.unlines fun l hl => ?_
  obtain ⟨line, hline, rfl⟩ := List.mem_map.1 hl
  have hstart : Guarded ([] ++ cs) := h
  exact (hstart.linesFrom line hline).dedentLine hline

end TabStop.Text
