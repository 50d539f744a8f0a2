import TabStop.Proofs.Text.Dedent
import TabStop.Proofs.Source.Flattening

/-!
# Code read again

A code block is written between backticks, with its kind in front, and is read again from that. Three
things may come in between. A backslash at the end of the code guards the closing backtick, so that
no block is read at all. A shell command may begin like the sign of another kind. And the program of
a python block is trimmed and dedented behind the blank that follows the sign, so blanks at its start
and carriage returns before line feeds are lost. Else the block that is read is the block.
-/

namespace TabStop

open Token Grammar Text Unicode

/-! ## Kinds -/

namespace Grammar

variable {cs : List Char} {ts us rest : List Token}

/-- The kind of block that a text between backticks is. -/
def kindOf : List Char → CodeKind
  | '!' :: 'p' :: cs => if cs.head?.any continuesWord then .shell else .python
  | '!' :: 'v' :: cs => if cs.head?.any continuesWord then .shell else .vim
  | _ => .shell

/-- The body of a text between backticks, which is behind the sign of its kind. -/
def bodyOf (cs : List Char) : List Char := if kindOf cs = .shell then cs else cs.drop 2

/-- The sign of a kind is two tokens, if no word goes on behind it. -/
theorem lex_sign {x : Char} (hx : startsWord x) (hmark : Mark.ofChar? x = none)
    (hcs : cs.head?.any continuesWord = false) :
    lex ('!' :: x :: cs) = other "!" :: word (String.singleton x) :: lex cs := by
  have hfirst : (other "!").WellFormed := ⟨'!', [], rfl, rfl, by simp⟩
  have hsecond : (word (String.singleton x)).WellFormed := ⟨x, [], by simp [text], hx, by simp⟩
  have hends : (other "!").EndsBefore (x :: cs) :=
    endsBefore_cons.2 (by simp [goesOn, isOther, continuesWord, hx, hmark])
  have hcut : (word (String.singleton x)).EndsBefore cs := by
    intro c hc
    rw [Option.mem_def.1 hc] at hcs
    exact hcs
  have hlex := lex_text_append hsecond hcut
  rw [text, String.toList_singleton, List.singleton_append] at hlex
  rw [← hlex]
  exact lex_text_append hfirst hends

/-- The two tokens of a sign are told from the characters. -/
theorem of_lex_sign {x : Char} (h : lex cs = other "!" :: word (String.singleton x) :: us) :
    ∃ rest, cs = '!' :: x :: rest ∧ rest.head?.any continuesWord = false := by
  obtain ⟨rest, rfl, -, hrest⟩ := of_lex_cons h
  obtain ⟨rest, rfl, hends, -⟩ := of_lex_cons hrest.symm
  refine ⟨rest, by simp [text], ?_⟩
  cases hhead : rest.head? with
  | none => rfl
  | some c => exact hends c hhead

theorem kindOf_python (h : cs.head?.any continuesWord = false) :
    kindOf ('!' :: 'p' :: cs) = .python := by simp [kindOf, h]

theorem kindOf_vim (h : cs.head?.any continuesWord = false) :
    kindOf ('!' :: 'v' :: cs) = .vim := by simp [kindOf, h]

theorem blockKind_lex (cs : List Char) : blockKind (lex cs) = kindOf cs := by
  unfold blockKind
  split
  next us h =>
    obtain ⟨rest, rfl, hrest⟩ := of_lex_sign (x := 'p') h
    exact (kindOf_python hrest).symm
  next us h =>
    obtain ⟨rest, rfl, hrest⟩ := of_lex_sign (x := 'v') h
    exact (kindOf_vim hrest).symm
  next hpython hvim =>
    -- A sign would have given the tokens of one of the other cases
    unfold kindOf
    split
    next rest =>
      split
      next => rfl
      next hrest => exact absurd (lex_sign rfl rfl (by simpa using hrest)) (hpython _)
    next rest =>
      split
      next => rfl
      next hrest => exact absurd (lex_sign rfl rfl (by simpa using hrest)) (hvim _)
    next => rfl

/-- Text that is no shell command has the sign of its kind in front. -/
theorem exists_sign (h : kindOf cs ≠ .shell) : ∃ x rest, x ≠ '\\' ∧ cs = '!' :: x :: rest ∧
    lex cs = other "!" :: word (String.singleton x) :: lex rest := by
  unfold kindOf at h
  split at h
  next rest =>
    split at h
    next => exact absurd rfl h
    next hrest => exact ⟨'p', rest, by decide, rfl, lex_sign rfl rfl (by simpa using hrest)⟩
  next rest =>
    split at h
    next => exact absurd rfl h
    next hrest => exact ⟨'v', rest, by decide, rfl, lex_sign rfl rfl (by simpa using hrest)⟩
  next => exact absurd rfl h

theorem kindOf_cons_cons (c c' : Char) (cs : List Char) :
    kindOf (c :: c' :: cs) =
      if c = '!' ∧ c' = 'p' then if cs.head?.any continuesWord then .shell else .python
      else if c = '!' ∧ c' = 'v' then if cs.head?.any continuesWord then .shell else .vim
      else .shell := by
  unfold kindOf
  split
  next h =>
    obtain ⟨rfl, rfl, rfl⟩ : c = '!' ∧ c' = 'p' ∧ cs = _ := by simpa using h
    simp
  next h =>
    obtain ⟨rfl, rfl, rfl⟩ : c = '!' ∧ c' = 'v' ∧ cs = _ := by simpa using h
    simp
  next hpython hvim =>
    rw [if_neg fun h => hpython cs (by simp [h]), if_neg fun h => hvim cs (by simp [h])]

/-- A backtick behind a text does not change its kind. -/
theorem kindOf_append (cs rest : List Char) : kindOf (cs ++ '`' :: rest) = kindOf cs := by
  match cs with
  | [] => rfl
  | [c] => by_cases hc : c = '!' <;> simp [kindOf, hc]
  | c :: c' :: cs =>
    have htick : continuesWord '`' = false := by decide
    have hhead : (cs ++ '`' :: rest).head?.any continuesWord = cs.head?.any continuesWord := by
      cases cs with
      | nil => simp [htick]
      | cons => rfl
    rw [List.cons_append, List.cons_append, kindOf_cons_cons, hhead, kindOf_cons_cons]

/-! ## Bodies -/

theorem getLast?_append_ne {init : List Char} (hcs : cs.getLast? ≠ some '\\')
    (hinit : cs = [] → init.getLast? ≠ some '\\') : (init ++ cs).getLast? ≠ some '\\' := by
  rw [List.getLast?_append]
  cases hlast : cs.getLast? with
  | none => simpa [List.getLast?_eq_none_iff.1 hlast] using hinit
  | some c => simpa [hlast] using hcs

theorem head?_of_blockBody_nil (hs : Sound ts) (h : Takes (blockBody ts) [] rest) :
    ts.head? = some (mark .backtick) := by
  unfold blockBody at h
  split at h
  · simp at h
  · rfl
  · obtain ⟨a, -, ha⟩ := h.of_map (fun body => '\\' :: '`' :: body) fun _ => ⟨rfl, rfl⟩
    simp at ha
  next t us _ _ =>
    obtain ⟨a, -, ha⟩ := h.of_map (fun body => t.text.toList ++ body) fun _ => ⟨rfl, rfl⟩
    exact absurd (by simpa using (List.append_eq_nil_iff.1 ha.symm).1) hs.head.text_ne_empty

/-- The body of code: the text up to the first backtick without a backslash right before it. -/
theorem chars_of_blockBody {body : List Char} (hs : Sound ts)
    (h : Takes (blockBody ts) body rest) :
    chars ts = body ++ '`' :: chars rest ∧ Guarded body ∧ body.getLast? ≠ some '\\' := by
  fun_induction blockBody ts generalizing body with
  | case1 => simp at h
  | case2 ts =>
    obtain ⟨rfl, rfl⟩ := takes_some.1 h
    exact ⟨rfl, guarded_of_not_mem (by simp [Taken.one]), by simp [Taken.one]⟩
  | case3 ts ih =>
    obtain ⟨body, hbody, rfl⟩ := h.of_map (fun body => '\\' :: '`' :: body) fun _ => ⟨rfl, rfl⟩
    obtain ⟨hchars, hguarded, hlast⟩ := ih hs.tail.tail hbody
    refine ⟨by simp [text, Mark.char, hchars], ?_, ?_⟩
    · exact guarded_escaped.append hguarded
    · have hpair : ['\\', '`'].getLast? ≠ some '\\' := by simp
      exact getLast?_append_ne hlast fun _ => hpair
  | case4 t ts htick hguard ih =>
    obtain ⟨body, hbody, rfl⟩ := h.of_map (fun body => t.text.toList ++ body) fun _ => ⟨rfl, rfl⟩
    obtain ⟨hchars, hguarded, hlast⟩ := ih hs.tail hbody
    have hfirst : Guarded t.text.toList := guarded_of_not_mem (hs.head.not_mem (m := .backtick) htick)
    refine ⟨by simp [hchars], hfirst.append hguarded, getLast?_append_ne hlast ?_⟩
    rintro rfl
    -- The token is not the backslash of a guarded backtick, so it is no backslash
    have hback : t ≠ mark .backslash := by
      rintro rfl
      obtain ⟨vs, rfl⟩ := List.head?_eq_some_iff.1 (head?_of_blockBody_nil hs.tail hbody)
      exact hguard vs rfl rfl
    exact fun h => hs.head.not_mem (m := .backslash) hback (List.mem_of_getLast? h)

theorem guarded_of_blockBody_none (hs : Sound ts) (h : blockBody ts = none) :
    Guarded (chars ts) := by
  fun_induction blockBody ts with
  | case1 => exact guarded_of_not_mem (by simp)
  | case2 => simp at h
  | case3 ts ih =>
    exact guarded_escaped.append (ih hs.tail.tail (Option.map_eq_none_iff.1 h))
  | case4 t ts htick _ ih =>
    have hfirst : Guarded t.text.toList := guarded_of_not_mem (hs.head.not_mem (m := .backtick) htick)
    exact hfirst.append (ih hs.tail (Option.map_eq_none_iff.1 h))

/-- A text is cut in one way only at the first backtick without a backslash right before it. -/
theorem body_unique {body body' after after' : List Char} (hbody : Guarded body)
    (hlast : body.getLast? ≠ some '\\') (hbody' : Guarded body') (hlast' : body'.getLast? ≠ some '\\')
    (h : body ++ '`' :: after = body' ++ '`' :: after') : body = body' ∧ after = after' := by
  rcases List.append_eq_append_iff.1 h with ⟨more, rfl, hmore⟩ | ⟨more, rfl, hmore⟩
  · match more with
    | [] => simpa using hmore
    | c :: more =>
      obtain ⟨rfl, -⟩ : '`' = c ∧ _ := by simpa using hmore
      exact absurd (hbody' body more rfl) hlast
  · match more with
    | [] => simpa [eq_comm] using hmore
    | c :: more =>
      obtain ⟨rfl, -⟩ : '`' = c ∧ _ := by simpa using hmore
      exact absurd (hbody body' more rfl) hlast'

/-- A guarded text before a backtick is the body, unless it ends with a backslash. -/
theorem takes_blockBody (hcs : Guarded cs) (hlast : cs.getLast? ≠ some '\\') :
    Takes (blockBody (lex (cs ++ ['`']))) cs [] := by
  -- The rule does not fail, for then the last backtick would be guarded
  cases hbody : blockBody (lex (cs ++ ['`'])) with
  | none =>
    have hguarded := guarded_of_blockBody_none (sound_lex _) hbody
    rw [chars_lex] at hguarded
    exact absurd (hguarded cs [] rfl) hlast
  | some t =>
    have htakes := takes_of_eq_some hbody
    obtain ⟨hchars, hguarded, hend⟩ := chars_of_blockBody (sound_lex _) htakes
    rw [chars_lex] at hchars
    obtain ⟨hvalue, hrest⟩ := body_unique hcs hlast hguarded hend hchars
    -- No token stands for nothing, so none is left
    have hnil : t.rest = [] := by
      cases hcons : t.rest with
      | nil => rfl
      | cons u us =>
        have hsound := (sound_lex _).of_suffix (suffix_blockBody htakes)
        rw [hcons] at hsound hrest
        have := (List.append_eq_nil_iff.1 hrest.symm).1
        exact absurd (by simpa using this) hsound.head.text_ne_empty
    exact takes_some.2 ⟨hvalue.symm, hnil⟩

/-! ## Blocks -/

@[simp] theorem blockOf_kind (kind : CodeKind) (body : List Char) :
    (blockOf kind body).kind = kind := by cases kind <;> rfl

/-- A block is made of a guarded text behind the sign of its kind. -/
theorem chars_of_block {b : CodeBlock} (hs : Sound ts) (h : Takes (block ts) b rest) :
    ∃ body, b = blockOf b.kind body ∧ Guarded body ∧ body.getLast? ≠ some '\\' ∧
      ((b.kind = .shell ∧ chars ts = body ++ '`' :: chars rest) ∨
        ∃ x, x ≠ '\\' ∧ chars ts = '!' :: x :: (body ++ '`' :: chars rest)) := by
  unfold block at h
  simp only at h
  split at h
  next hkind =>
    obtain ⟨body, hbody, rfl⟩ := h.of_map (blockOf (blockKind ts)) fun _ => ⟨rfl, rfl⟩
    obtain ⟨hchars, hguarded, hlast⟩ := chars_of_blockBody hs hbody
    exact ⟨body, by rw [blockOf_kind], hguarded, hlast, Or.inl ⟨by simpa using hkind, hchars⟩⟩
  next hkind =>
    obtain ⟨body, hbody, rfl⟩ := h.of_map (blockOf (blockKind ts)) fun _ => ⟨rfl, rfl⟩
    have hdrop : Sound (ts.drop 2) := fun t ht => hs t (List.mem_of_mem_drop ht)
    obtain ⟨hchars, hguarded, hlast⟩ := chars_of_blockBody hdrop hbody
    refine ⟨body, by rw [blockOf_kind], hguarded, hlast, Or.inr ?_⟩
    obtain ⟨x, us, hx, rfl⟩ := exists_of_blockKind hkind
    exact ⟨x, by rcases hx with rfl | rfl <;> decide, by simpa [text] using hchars⟩

/-- No block is read from a text in which each backtick is guarded. -/
theorem not_takes_block {b : CodeBlock} (hs : Sound ts) (hguarded : Guarded (chars ts)) :
    ¬Takes (block ts) b rest := by
  intro h
  obtain ⟨body, -, -, hlast, ⟨-, hchars⟩ | ⟨x, hx, hchars⟩⟩ := chars_of_block hs h
  · exact hlast (hguarded body _ hchars)
  · -- Before the body there is the sign, which does not end with a backslash either
    have hsign : ['!', x].getLast? ≠ some '\\' := by simpa using hx
    exact getLast?_append_ne hlast (fun _ => hsign) (hguarded (['!', x] ++ body) _ hchars)

/-- The block that a text between backticks is. -/
def blockFrom (cs : List Char) : CodeBlock := blockOf (kindOf cs) (bodyOf cs)

/-- A guarded text between backticks is read as a block, unless it ends with a backslash. -/
theorem takes_block (hcs : Guarded cs) (hlast : cs.getLast? ≠ some '\\') :
    Takes (block (lex (cs ++ ['`']))) (blockFrom cs) [] := by
  have hkind : blockKind (lex (cs ++ ['`'])) = kindOf cs := by
    rw [blockKind_lex, kindOf_append]
  unfold block
  simp only [hkind]
  rw [blockFrom, bodyOf]
  split
  next hshell => exact (takes_blockBody hcs hlast).map (blockOf (kindOf cs)) fun _ => ⟨rfl, rfl⟩
  next hsign =>
    -- The body is behind the two tokens of the sign
    obtain ⟨x, body, hx, rfl, -⟩ := exists_sign hsign
    have happend : kindOf ('!' :: x :: body ++ ['`']) ≠ .shell := by rwa [kindOf_append]
    obtain ⟨y, after, -, hchars, hlex⟩ := exists_sign happend
    obtain ⟨rfl, rfl⟩ : x = y ∧ body ++ ['`'] = after := by simpa using hchars
    have hwhole : Guarded (['!', x] ++ body) := hcs
    have hguarded : Guarded body := hwhole.of_append (by simpa using hx)
    have hend : body.getLast? ≠ some '\\' := fun h => hlast (by simp [List.getLast?_cons, h])
    have hdrop : (lex ('!' :: x :: body ++ ['`'])).drop 2 = lex (body ++ ['`']) := by
      rw [hlex]
      rfl
    have hbody : Takes (blockBody ((lex ('!' :: x :: body ++ ['`'])).drop 2)) body [] :=
      hdrop ▸ takes_blockBody hguarded hend
    exact hbody.map (blockOf (kindOf ('!' :: x :: body))) fun _ => ⟨rfl, rfl⟩

end Grammar

/-! ## Programs -/

namespace Grammar

variable {cs : List Char}

/-- The part of the body of a python block that is dedented. -/
def programStart (body : List Char) : List Char :=
  match body.dropWhile (· ≠ '\n') with
  | _ :: rest => if isBlank (body.takeWhile (· ≠ '\n')) then rest else trimStart body
  | [] => trimStart body

theorem pythonBody_eq (body : List Char) :
    pythonBody body = trimEnd (dedent (programStart body)) := rfl

/-- A first line without text is dropped, or else the blanks before the text. -/
theorem programStart_cases (body : List Char) :
    programStart body = trimStart body ∨
      ∃ first, body = first ++ '\n' :: programStart body ∧ ∀ c ∈ first, isSpace c := by
  unfold programStart
  split
  next x rest hrest =>
    split
    next hblank =>
      refine Or.inr ⟨body.takeWhile (· ≠ '\n'), ?_, List.all_eq_true.1 hblank⟩
      have hx := List.head?_dropWhile_not (· ≠ '\n') body
      rw [hrest] at hx
      obtain rfl : x = '\n' := by simpa using hx
      rw [← hrest, List.takeWhile_append_dropWhile]
    next => exact Or.inl rfl
  next => exact Or.inl rfl

theorem programStart_cons (h : ∀ c ∈ cs.head?, isSpace c = false) :
    programStart (' ' :: cs) = cs := by
  rcases programStart_cases (' ' :: cs) with hstart | ⟨first, hfirst, hblank⟩
  · rw [hstart, trimStart_cons isSpace_blank, trimStart_of_head? h]
  · -- The second character would be a blank
    match first with
    | [] => simp at hfirst
    | [c] =>
      have hhead := h '\n' (by rw [(List.cons.inj hfirst).2]; rfl)
      simp [isSpace_lineFeed] at hhead
    | c :: c' :: first =>
      have hhead := h c' (by rw [(List.cons.inj hfirst).2]; rfl)
      simp [hblank c' (by simp)] at hhead

theorem length_programStart_lt (h : ∃ c ∈ cs.head?, isSpace c) :
    (programStart (' ' :: cs)).length < cs.length := by
  rcases programStart_cases (' ' :: cs) with hstart | ⟨first, hfirst, -⟩
  · rw [hstart, trimStart_cons isSpace_blank]
    exact length_trimStart_lt h
  · cases first with
    | nil => simp at hfirst
    | cons c first =>
      have hlength := congrArg List.length hfirst
      simp only [List.length_cons, List.length_append] at hlength
      omega

theorem length_pythonBody_le (body : List Char) :
    (pythonBody body).length ≤ (programStart body).length := by
  rw [pythonBody_eq]
  exact (prefix_trimEnd _).length_le.trans (length_dedent_le _)

/-- A program that begins with no blank is kept behind a blank, exactly if no carriage return belongs
to a line end in it. -/
theorem pythonBody_cons_of_head? (h : ∀ c ∈ cs.head?, isSpace c = false)
    (hlast : ∀ c ∈ cs.getLast?, isSpace c = false) :
    pythonBody (' ' :: cs) = cs ↔ ¬HoldsReturn cs := by
  have hfeed : ([] ++ cs).getLast? ≠ some '\n' := fun he => by
    simpa [isSpace_lineFeed] using hlast '\n' he
  have hlines : unlines (lines cs) = cs ↔ ¬HoldsReturn cs := unlines_linesFrom (by simp) hfeed
  have hdedent : dedent cs = unlines (lines cs) := by
    cases hhead : cs.head? with
    | none =>
      obtain rfl := List.head?_eq_none_iff.1 hhead
      rfl
    | some c => exact dedent_of_head? (h c hhead) hhead
  rw [pythonBody_eq, programStart_cons h, hdedent, ← hlines]
  constructor
  · intro heq
    -- Neither step makes the text longer, so neither changes it
    have hfirst := length_unlines_lines_le cs
    have hpre := prefix_trimEnd (unlines (lines cs))
    rw [heq] at hpre
    exact (hpre.eq_of_length (Nat.le_antisymm hpre.length_le hfirst)).symm
  · intro heq
    rw [heq, trimEnd_of_getLast? hlast]

/-- A program is kept behind a blank, exactly if it begins with no blank and no carriage return
belongs to a line end in it. -/
theorem pythonBody_cons_eq_iff (hlast : ∀ c ∈ cs.getLast?, isSpace c = false) :
    pythonBody (' ' :: cs) = cs ↔ (∀ c ∈ cs.head?, isSpace c = false) ∧ ¬HoldsReturn cs := by
  by_cases h : ∀ c ∈ cs.head?, isSpace c = false
  · rw [pythonBody_cons_of_head? h hlast, and_iff_right h]
  · refine iff_of_false (fun heq => ?_) fun hcs => h hcs.1
    have hblank : ∃ c ∈ cs.head?, isSpace c := by simpa using h
    have hshorter := length_programStart_lt hblank
    have hle := length_pythonBody_le (' ' :: cs)
    rw [heq] at hle
    exact absurd hshorter (Nat.not_lt.2 hle)

theorem guarded_pythonBody {body : List Char} (h : Guarded body) : Guarded (pythonBody body) := by
  rw [pythonBody_eq]
  refine Guarded.trimEnd (Guarded.dedent ?_)
  rcases programStart_cases body with hstart | ⟨first, hfirst, -⟩
  · rw [hstart]
    exact h.trimStart
  · rw [hfirst, List.append_cons] at h
    exact h.of_append (by simp)

/-! ## Blocks that are kept -/

/-- What the body of code has become is guarded too, and ends with no blank. -/
theorem code_blockOf (kind : CodeKind) {body : List Char} (h : Guarded body) :
    Guarded (blockOf kind body).code.toList ∧
      ∀ c ∈ (blockOf kind body).code.toList.getLast?, isSpace c = false := by
  cases kind with
  | python => simpa [blockOf] using ⟨guarded_pythonBody h, getLast?_trimEnd _⟩
  | shell | vim => simpa [blockOf] using ⟨h.trim, getLast?_trimEnd _⟩

theorem guarded_opening (kind : CodeKind) : Guarded kind.opening.toList := by
  refine guarded_of_not_mem ?_
  cases kind <;> decide

theorem last_opening (kind : CodeKind) : kind.opening.toList.getLast? ≠ some '\\' := by
  cases kind <;> decide

end Grammar

/-- Blocks that are kept by writing and reading: the code does not end with a backslash, a command is
not taken for another kind, and a program begins with no blank and has no carriage return right before
a line feed. -/
structure CodeBlock.Kept (b : CodeBlock) : Prop where
  closed : b.code.toList.getLast? ≠ some '\\'
  command : b.kind = .shell → kindOf b.code.toList = .shell
  program : b.kind = .python →
    (∀ c ∈ b.code.toList.head?, isSpace c = false) ∧ ¬HoldsReturn b.code.toList

namespace Grammar

/-- What is written for a block that has been read, between the backticks. -/
def written (b : CodeBlock) : List Char := b.kind.opening.toList ++ b.code.toList

theorem not_continuesWord_blank : continuesWord ' ' = false := by decide

theorem blockFrom_python (cs : List Char) :
    blockFrom ('!' :: 'p' :: ' ' :: cs) = blockOf .python (' ' :: cs) := by
  have hkind : kindOf ('!' :: 'p' :: ' ' :: cs) = .python := kindOf_python not_continuesWord_blank
  rw [blockFrom, bodyOf, hkind, if_neg (by decide)]
  rfl

theorem blockFrom_vim (cs : List Char) :
    blockFrom ('!' :: 'v' :: ' ' :: cs) = blockOf .vim (' ' :: cs) := by
  have hkind : kindOf ('!' :: 'v' :: ' ' :: cs) = .vim := kindOf_vim not_continuesWord_blank
  rw [blockFrom, bodyOf, hkind, if_neg (by decide)]
  rfl

/-- A block that has been read comes back from what is written for it, exactly if it is kept. -/
theorem blockFrom_written (kind : CodeKind) (body : List Char)
    (hlast : (blockOf kind body).code.toList.getLast? ≠ some '\\') :
    blockFrom (written (blockOf kind body)) = blockOf kind body ↔ (blockOf kind body).Kept := by
  -- What is lost in reading depends on the kind: a command may turn into another kind, and a
  -- program may lose blanks at its start
  cases kind with
  | shell =>
    have hwritten : written (blockOf .shell body) = trim body := by
      simp [written, CodeKind.opening, blockOf]
    have hcode : (blockOf .shell body).code.toList = trim body := by simp [blockOf]
    rw [hwritten, blockFrom, bodyOf]
    constructor
    · intro heq
      have hkind : kindOf (trim body) = .shell := by
        simpa using congrArg CodeBlock.kind heq
      exact ⟨hlast, fun _ => by rwa [hcode], fun hpython => by simp at hpython⟩
    · intro hkept
      have hkind : kindOf (trim body) = .shell := hcode ▸ hkept.command (by simp)
      rw [hkind, if_pos rfl]
      simp [blockOf, trim_trim]
  | vim =>
    have hwritten : written (blockOf .vim body) = '!' :: 'v' :: ' ' :: trim body := by
      simp [written, CodeKind.opening, blockOf]
    refine iff_of_true ?_ ⟨hlast, by simp, by simp⟩
    rw [hwritten, blockFrom_vim]
    simp [blockOf, trim_cons isSpace_blank, trim_trim]
  | python =>
    have hwritten : written (blockOf .python body) = '!' :: 'p' :: ' ' :: pythonBody body := by
      simp [written, CodeKind.opening, blockOf]
    have hcode : (blockOf .python body).code.toList = pythonBody body := by simp [blockOf]
    have hend : ∀ c ∈ (pythonBody body).getLast?, isSpace c = false := getLast?_trimEnd _
    have hiff := pythonBody_cons_eq_iff hend
    rw [hwritten, blockFrom_python]
    constructor
    · intro heq
      have hbody : pythonBody (' ' :: pythonBody body) = pythonBody body := by
        simpa [blockOf] using congrArg (·.code.toList) heq
      exact ⟨hlast, by simp, fun _ => by rw [hcode]; exact hiff.1 hbody⟩
    · intro hkept
      have hbody := hiff.2 (hcode ▸ hkept.program (by simp))
      simp [blockOf, hbody]

end Grammar

/-! ## Nodes that have started -/

namespace Draft

/-- A node of that kind has been told, finished or not. -/
def Has (dr : Draft) (m : Marker) : Prop := ∃ f ∈ dr.frame :: dr.outer, m ∈ f.close.markers

variable {dr : Draft} {m : Marker}

theorem mem_markersAll_addText {row : List Outline} {s : String} (hm : m.text? = none)
    (h : m ∈ Outline.markersAll (Outline.addText row s)) : m ∈ Outline.markersAll row := by
  by_cases hs : s = ""
  · rwa [hs, Outline.addText_empty] at h
  have hne (r : String) : m ≠ .text r := fun he => by simp [he, Marker.text?] at hm
  rcases Outline.addText_cases hs row with ⟨init, r, cs, rfl, hadd⟩ | ⟨-, hadd⟩
  · simpa [hadd, Outline.markersAll_append, Outline.markersAll, Outline.markers, hne] using h
  · simpa [hadd, Outline.markersAll_append, Outline.markersAll, Outline.markers, hne] using h

/-- An event brings at most the node that starts with it. -/
theorem Has.of_step {e : Event} (hm : m.text? = none) (h : (dr.step e).Has m) :
    dr.Has m ∨ e = .start m := by
  obtain ⟨f, hf, hmf⟩ := h
  cases e with
  | start n =>
    rcases List.mem_cons.1 hf with rfl | hf
    · obtain rfl : m = n := by
        simpa [step, Frame.close, Outline.markers, Outline.markersAll] using hmf
      exact Or.inr rfl
    · exact Or.inl ⟨f, hf, hmf⟩
  | text s =>
    rcases List.mem_cons.1 hf with rfl | hf
    · refine Or.inl ⟨dr.frame, List.mem_cons_self .., ?_⟩
      rcases List.mem_cons.1 hmf with hmf | hmf
      · exact List.mem_cons.2 (Or.inl hmf)
      · exact List.mem_cons.2 (Or.inr (mem_markersAll_addText hm hmf))
    · exact Or.inl ⟨f, List.mem_cons_of_mem _ hf, hmf⟩
  | finish =>
    obtain ⟨inner, outer⟩ := dr
    cases outer with
    | nil => exact Or.inl ⟨f, hf, hmf⟩
    | cons g outer =>
      rcases List.mem_cons.1 hf with rfl | hf
      · -- The node that is finished is now the last one in the node around it
        have hmem : m ∈ g.close.markers ∨ m ∈ inner.close.markers := by
          simpa [step, Frame.close, Frame.add, Outline.markers, Outline.markersAll_append,
            Outline.markersAll, or_assoc] using hmf
        rcases hmem with hmem | hmem
        · exact Or.inl ⟨g, by simp, hmem⟩
        · exact Or.inl ⟨inner, by simp, hmem⟩
      · have hf : f ∈ outer := hf
        exact Or.inl ⟨f, by simp [hf], hmf⟩

theorem Has.of_run {es : List Event} (hm : m.text? = none) (h : (dr.run es).Has m) :
    dr.Has m ∨ .start m ∈ es := by
  induction es generalizing dr with
  | nil => exact Or.inl h
  | cons e es ih =>
    rcases ih h with h | h
    · refine (h.of_step hm).imp_right ?_
      rintro rfl
      exact List.mem_cons_self ..
    · exact Or.inr (List.mem_cons_of_mem _ h)

end Draft

/-- A node that is told has started. -/
theorem Event.Tells.start_mem {es : List Event} {row : List Outline} (h : Event.Tells es [] row)
    {m : Marker} (hm : m ∈ Outline.markersAll row) (htext : m.text? = none) (hroot : m ≠ .root) :
    .start m ∈ es := by
  have hhas : (Draft.start.run es).Has m := by
    rw [Draft.start, h .root []]
    exact ⟨_, List.mem_cons_self .., List.mem_cons_of_mem _ hm⟩
  refine (hhas.of_run htext).resolve_left ?_
  rintro ⟨f, hf, hmf⟩
  simp [Draft.start] at hf
  subst hf
  simp [Frame.close, Outline.markers, Outline.markersAll, hroot] at hmf

/-! ## Trees of sources -/

namespace Tree

variable {t : Tree} {source : String} {row : List Outline}

/-- The code blocks of a tree are the markers below the root that are code. -/
theorem codeBlocks_map (t : Tree) : t.codeBlocks.map t.code? =
    (((t.descendants t.root).map t.marker?).map (·.bind Marker.code?)).filter Option.isSome := by
  rw [codeBlocks, List.map_map, List.filter_map]
  rfl

theorem codeBlocks_ofSource (identity : Nat) {d : Dialect}
    (h : Event.Tells (Event.ofSource d source) [] row) :
    (ofSource identity d source).codeBlocks.map (ofSource identity d source).code? =
      ((Outline.markersAll row).map Marker.code?).filter Option.isSome := by
  obtain ⟨hshows, hsize⟩ := shows_ofSource identity h
  rw [codeBlocks_map, hshows.descendants_markers hsize, List.map_map]
  rfl

/-- A block of a source is read behind a backtick of it. -/
theorem holdsCode_of_mem {d : Dialect} (h : Event.Tells (Event.ofSource d source) [] row)
    {b : CodeBlock} (hb : .code b ∈ Outline.markersAll row) :
    HoldsCode (lex source.toList) b :=
  (walks_elements _).code b (h.start_mem hb rfl (by simp))

theorem code_mem_of_code? {identity : Nat} {d : Dialect}
    (h : Event.Tells (Event.ofSource d source) [] row) {x : Handle} {b : CodeBlock}
    (hx : x ∈ (ofSource identity d source).codeBlocks)
    (hb : (ofSource identity d source).code? x = some b) : .code b ∈ Outline.markersAll row := by
  have hmem : some b ∈ ((Outline.markersAll row).map Marker.code?).filter Option.isSome := by
    rw [← codeBlocks_ofSource identity h, ← hb]
    exact List.mem_map_of_mem hx
  obtain ⟨m, hm, hcode⟩ := List.mem_map.1 (List.mem_filter.1 hmem).1
  cases m with
  | code c =>
    obtain rfl : c = b := by simpa [Marker.code?] using hcode
    exact hm
  | _ => simp [Marker.code?] at hcode

/-- A code block is written between backticks. -/
theorem sourceOf_code {x : Handle} {b : CodeBlock} (hb : t.code? x = some b) :
    t.sourceOf x = String.ofList ('`' :: (written b ++ ['`'])) := by
  obtain ⟨m, hm, hcode⟩ := Option.bind_eq_some_iff.1 hb
  have howned : t.owns x := by
    by_contra h
    simp [marker?, h] at hm
  have hslot : (t.slotOf x).marker = .code b := by
    rw [marker?, if_pos howned] at hm
    obtain rfl := Option.some.inj hm
    cases hmarker : (t.slotOf x).marker with
    | code c =>
      obtain rfl : c = b := by simpa [hmarker, Marker.code?] using hcode
      rfl
    | _ => simp [hmarker, Marker.code?] at hcode
  -- The node has a slot, so the search goes down to it
  have hlt : x.slot < t.capacity := (owns_iff.1 howned).2.1
  obtain ⟨n, hn⟩ := Nat.exists_eq_add_of_lt (Nat.zero_lt_of_lt hlt)
  rw [Nat.zero_add] at hn
  rw [sourceOf, if_pos howned, hn, sourceFrom, hslot]
  refine String.toList_injective ?_
  simp [CodeBlock.source, written]

/-- No block is read from a text in which each backtick but the first is guarded. -/
theorem not_holdsCode {w : List Char} (hw : Guarded w) {b : CodeBlock} :
    ¬HoldsCode (lex ('`' :: w)) b := by
  rintro ⟨us, rest, hus, hblock⟩
  have hlex : lex ('`' :: w) = mark .backtick :: lex w := lex_mark .backtick w
  have hsound : Sound us := fun t ht =>
    sound_lex _ t (hus.subset (List.mem_cons_of_mem _ ht))
  refine not_takes_block hsound ?_ hblock
  rw [hlex, List.suffix_cons_iff] at hus
  rcases hus with heq | ⟨before, hbefore⟩
  · rw [(List.cons.inj heq).2, chars_lex]
    exact hw
  · have hchars : (chars before ++ ['`']) ++ chars us = w := by
      rw [← chars_lex w, ← hbefore]
      simp [chars, Token.text, Mark.char]
    rw [← hchars] at hw
    exact hw.of_append (by simp)

/-- A guarded text in backticks is one code block, unless it ends with a backslash. -/
theorem tells_quoted {cs : List Char} (hcs : Guarded cs) (hlast : cs.getLast? ≠ some '\\') :
    Event.Tells (Event.ofSource .ultiSnips (String.ofList ('`' :: (cs ++ ['`'])))) []
      [.node (.code (blockFrom cs)) []] := by
  -- Behind a backtick no rule fits but those for code and for any token
  have hrules : element .ultiSnips (mark .backtick :: lex (cs ++ ['`'])) =
      (((block (lex (cs ++ ['`']))).map fun t => (t.map fun b => Event.leaf (.code b)).cons) <|>
        anyToken (mark .backtick :: lex (cs ++ ['`']))) := by
    rw [element]
    rfl
  have helement : Takes (element .ultiSnips (mark .backtick :: lex (cs ++ ['`'])))
      (Event.leaf (.code (blockFrom cs))) [] := by
    rw [hrules]
    exact Takes.orElse_left
      ((takes_block hcs hlast).map (fun b => Event.leaf (.code b)) fun _ => ⟨rfl, rfl⟩)
  have hlex : lex ('`' :: (cs ++ ['`'])) = mark .backtick :: lex (cs ++ ['`']) :=
    lex_mark .backtick _
  rw [Event.ofSource, Token.ofSource, String.toList_ofList, hlex, elements_of_takes helement,
    (ReadsElements.nil []).elements, List.append_nil]
  exact Event.tells_leaf _ []

/-- The blocks of a text in backticks: none if the closing backtick is guarded, else the text. -/
theorem codeBlocks_quoted (identity : Nat) {cs : List Char} (hcs : Guarded cs) :
    let u := ofSource identity .ultiSnips (String.ofList ('`' :: (cs ++ ['`'])))
    u.codeBlocks.map u.code? =
      if cs.getLast? = some '\\' then [] else [some (blockFrom cs)] := by
  intro u
  split
  -- The last backtick is guarded, so there is no code behind any backtick
  next hlast =>
    obtain ⟨row, -, htells⟩ :=
      readable_ofSource .ultiSnips (String.ofList ('`' :: (cs ++ ['`'])))
    rw [codeBlocks_ofSource identity htells, List.filter_eq_nil_iff]
    intro o ho
    obtain ⟨m, hm, rfl⟩ := List.mem_map.1 ho
    cases m with
    | code b =>
      have hholds := holdsCode_of_mem htells hm
      rw [String.toList_ofList] at hholds
      exact absurd hholds (not_holdsCode (hcs.tick hlast))
    | _ => simp [Marker.code?]
  next hlast =>
    rw [codeBlocks_ofSource identity (tells_quoted hcs hlast)]
    rfl

/-- Each code block of an UltiSnips source, written and read again, is the only code block then, of the
same kind and with the same code, if and only if it is one that is kept. -/
theorem codeBlock_round_trip (i j : Nat) (source : String) {x : Handle} {b : CodeBlock}
    (hx : x ∈ (ofSource i .ultiSnips source).codeBlocks)
    (hb : (ofSource i .ultiSnips source).code? x = some b) :
    let u := ofSource j .ultiSnips ((ofSource i .ultiSnips source).sourceOf x)
    u.codeBlocks.map u.code? = [some b] ↔ b.Kept := by
  intro u
  obtain ⟨row, -, htells⟩ := readable_ofSource .ultiSnips source
  obtain ⟨us, rest, hus, hblock⟩ := holdsCode_of_mem htells (code_mem_of_code? htells hx hb)
  have hsound : Sound us := fun t ht =>
    sound_lex source.toList t (hus.subset (List.mem_cons_of_mem _ ht))
  obtain ⟨body, hbody, hguarded, -, -⟩ := chars_of_block hsound hblock
  -- What has been made of the body is guarded, so it is told what is read from it
  have hcode : Guarded b.code.toList := by
    rw [hbody]
    exact (code_blockOf b.kind hguarded).1
  have hwritten : Guarded (written b) := (guarded_opening b.kind).append hcode
  have hu : u.codeBlocks.map u.code? =
      if (written b).getLast? = some '\\' then [] else [some (blockFrom (written b))] := by
    simp only [u, sourceOf_code hb]
    exact codeBlocks_quoted j hwritten
  rw [hu]
  by_cases hlast : b.code.toList.getLast? = some '\\'
  · have hend : (written b).getLast? = some '\\' := by
      rw [written, List.getLast?_append, hlast]
      rfl
    rw [if_pos hend]
    exact iff_of_false (by simp) fun hkept => hkept.closed hlast
  · have hend : (written b).getLast? ≠ some '\\' :=
      getLast?_append_ne hlast fun _ => last_opening b.kind
    rw [if_neg hend]
    have hiff := blockFrom_written b.kind body
    rw [← hbody] at hiff
    simpa using hiff hlast

/-- A shell command in backticks. -/
theorem codeBlock_round_trip_command :
    let t := ofSource 0 .ultiSnips "`x`"
    let u := ofSource 1 .ultiSnips (t.sourceOf ⟨0, 1, 0⟩)
    ⟨0, 1, 0⟩ ∈ t.codeBlocks ∧ t.code? ⟨0, 1, 0⟩ = some ⟨.shell, "x", none⟩ ∧
      u.codeBlocks.map u.code? = [some ⟨.shell, "x", none⟩] := by
  intro t u
  have hblock : blockFrom ['x'] = ⟨.shell, "x", none⟩ := by
    have hx : isSpace 'x' = false := by rw [isSpace_eq]; cbv
    simp [blockFrom, bodyOf, kindOf, blockOf, trim, trimStart, trimEnd, hx]
  have htells := tells_quoted (guarded_of_not_mem (by decide)) (show ['x'].getLast? ≠ _ by decide)
  rw [hblock] at htells
  -- The block is the only node below the root
  have htree : t = .ofSlots 0 .ultiSnips (Outline.slots 0 none 0
      (.node .root [.node (.code ⟨.shell, "x", none⟩) []])) := by
    have hrun := htells .root []
    simp only [t, ofSource, ofEvents_eq]
    rw [Draft.start]
    exact congrArg (fun dr : Draft => ofSlots 0 .ultiSnips (Outline.slots 0 none 0 dr.close)) hrun
  have hmem : ⟨0, 1, 0⟩ ∈ t.codeBlocks := by
    rw [htree]
    decide
  have hcode : t.code? ⟨0, 1, 0⟩ = some ⟨.shell, "x", none⟩ := by
    rw [htree]
    rfl
  exact ⟨hmem, hcode, (codeBlock_round_trip 0 1 "`x`" hmem hcode).2
    ⟨by decide, fun _ => rfl, fun h => by simp at h⟩⟩

end Tree

end TabStop
