import Mathlib
import TabStop.Decimal
import TabStop.Scanner
import TabStop.Tree.Source

/-!
# Cutting texts into tokens

What the first token of a text is, said without the scanning loop: a token stands at the front of a
text if its characters belong to its kind and the next character does not go on with it. An
induction along the tokens of a text follows, and with it what the tokens of an escaped text are,
whatever is written after it.
-/

namespace TabStop

/-! ## Marks -/

theorem Mark.ofChar?_eq_some {c : Char} {m : Mark} : Mark.ofChar? c = some m ↔ c = m.char := by
  constructor
  · intro h
    unfold Mark.ofChar? at h
    split at h <;> simp_all [Mark.char]
    all_goals subst h; rfl
  · rintro rfl
    exact Mark.ofChar?_char m

namespace Token

/-! ## Runs of characters -/

/-- Whether `c` can be the first character of a token of that kind. -/
def starts : Token → Char → Bool
  | mark m, c => c == m.char
  | digits _, c => isDigit c
  | word _, c => startsWord c
  | other _, c => isOther c

/-- Whether `c` right after a token of that kind would belong to it. -/
def goesOn : Token → Char → Bool
  | mark _, _ => false
  | digits _, c => isDigit c
  | word _, c => continuesWord c
  | other _, c => isOther c

/-- A token whose text belongs to its kind. -/
def WellFormed (t : Token) : Prop :=
  ∃ c cs, t.text.toList = c :: cs ∧ t.starts c ∧ ∀ x ∈ cs, t.goesOn x

/-- A token ends before a text that does not go on with it. -/
def EndsBefore (t : Token) (rest : List Char) : Prop := ∀ c ∈ rest.head?, t.goesOn c = false

/-- A text before which any token ends: it is empty or a mark comes first. -/
def Breaks (rest : List Char) : Prop := ∀ c ∈ rest.head?, (Mark.ofChar? c).isSome

@[simp] theorem wellFormed_mark (m : Mark) : (mark m).WellFormed :=
  ⟨m.char, [], by simp [text], by simp [starts], by simp⟩

@[simp] theorem endsBefore_nil (t : Token) : t.EndsBefore [] := by simp [EndsBefore]

@[simp] theorem breaks_nil : Breaks [] := by simp [Breaks]

theorem endsBefore_cons {t : Token} {c : Char} {cs : List Char} :
    t.EndsBefore (c :: cs) ↔ t.goesOn c = false := by
  simp [EndsBefore]

theorem breaks_mark (m : Mark) (cs : List Char) : Breaks (m.char :: cs) := by
  simp [Breaks]

theorem breaks_of_head? {cs : List Char} {m : Mark} (h : cs.head? = some m.char) : Breaks cs := by
  simp [Breaks, h]

theorem WellFormed.text_ne_empty {t : Token} (h : t.WellFormed) : t.text ≠ "" := by
  obtain ⟨c, cs, hcs, -⟩ := h
  intro he
  simp [he] at hcs

private theorem not_digit_of_startsWord {c : Char} (h : startsWord c) : isDigit c = false := by
  simp only [startsWord, isLetter, Bool.or_eq_true, Bool.and_eq_true, decide_eq_true_eq,
    beq_iff_eq] at h
  simp only [isDigit, Bool.and_eq_false_iff, decide_eq_false_iff_not]
  -- Letters and the underscore all come behind the digits
  rcases h with (⟨h, -⟩ | ⟨h, -⟩) | rfl
  · exact Or.inr fun hc => absurd (Char.le_trans h hc) (by decide)
  · exact Or.inr fun hc => absurd (Char.le_trans h hc) (by decide)
  · decide

theorem not_goesOn_of_isMark {c : Char} (t : Token) (h : (Mark.ofChar? c).isSome) :
    t.goesOn c = false := by
  obtain ⟨m, hm⟩ := Option.isSome_iff_exists.1 h
  obtain rfl := Mark.ofChar?_eq_some.1 hm
  -- No mark is a digit or part of a word, which is seen mark by mark
  cases t with
  | mark => rfl
  | digits => cases m <;> rfl
  | word => cases m <;> rfl
  | other => simp [goesOn, isOther]

theorem Breaks.endsBefore {rest : List Char} (h : Breaks rest) (t : Token) :
    t.EndsBefore rest :=
  fun c hc => not_goesOn_of_isMark t (h c hc)

theorem EndsBefore.append {t : Token} {cs rest : List Char} (h : t.EndsBefore cs)
    (hrest : Breaks rest) : t.EndsBefore (cs ++ rest) := by
  cases cs with
  | nil => exact hrest.endsBefore t
  | cons c cs => exact endsBefore_cons.2 (endsBefore_cons.1 h)

private theorem ofChar?_of_goesOn {t : Token} {c : Char} (h : t.goesOn c) :
    Mark.ofChar? c = none := by
  cases hm : Mark.ofChar? c with
  | none => rfl
  | some m =>
    have : t.goesOn c = false := not_goesOn_of_isMark t (by simp [hm])
    simp [this] at h

/-- No mark stands inside a token that is not a mark itself. -/
theorem WellFormed.not_isMark {t : Token} (h : t.WellFormed) (hm : ∀ m, t ≠ mark m) :
    ∀ c ∈ t.text.toList, Mark.ofChar? c = none := by
  obtain ⟨c, cs, hcs, hc, hgo⟩ := h
  -- What starts a token could also go on with it
  have first : t.goesOn c := by
    cases t with
    | mark m => exact absurd rfl (hm m)
    | digits => exact hc
    | word => simp only [starts] at hc; simp [goesOn, continuesWord, hc]
    | other => exact hc
  rw [hcs]
  intro x hx
  rcases List.mem_cons.1 hx with rfl | hx
  · exact ofChar?_of_goesOn first
  · exact ofChar?_of_goesOn (hgo x hx)

/-- A mark is in no other token than the one it is. -/
theorem WellFormed.not_mem {t : Token} (h : t.WellFormed) {m : Mark} (hne : t ≠ mark m) :
    m.char ∉ t.text.toList := by
  intro hc
  cases t with
  | mark n =>
    simp only [text, String.toList_singleton, List.mem_singleton] at hc
    have hmark : some m = some n := by rw [← Mark.ofChar?_char m, hc, Mark.ofChar?_char]
    cases hmark
    exact hne rfl
  | digits | word | other =>
    have hnone := h.not_isMark (by simp) _ hc
    simp at hnone

/-! ## The first token -/

private theorem takeWhile_run {p : Char → Bool} {cs rest : List Char} (hcs : ∀ x ∈ cs, p x)
    (hrest : ∀ c ∈ rest.head?, p c = false) : (cs ++ rest).takeWhile p = cs := by
  rw [List.takeWhile_append_of_pos hcs]
  cases rest with
  | nil => simp
  | cons c _ => simp [hrest c rfl]

private theorem dropWhile_run {p : Char → Bool} {cs rest : List Char} (hcs : ∀ x ∈ cs, p x)
    (hrest : ∀ c ∈ rest.head?, p c = false) : (cs ++ rest).dropWhile p = rest := by
  rw [List.dropWhile_append_of_pos hcs]
  cases rest with
  | nil => simp
  | cons c _ => simp [hrest c rfl]

private theorem first?_run (p : Char → Bool) (make : String → Token) {c : Char}
    {cs rest : List Char} (hcs : ∀ x ∈ cs, p x) (hrest : ∀ x ∈ rest.head?, p x = false) :
    (run p make c (cs ++ rest)).token = make (String.ofList (c :: cs)) ∧
      (run p make c (cs ++ rest)).rest = rest := by
  simp [run, takeWhile_run hcs hrest, dropWhile_run hcs hrest]

@[simp] theorem lex_nil : lex [] = [] := by simp [lex, first?]

/-- A well-formed token is the first one of a text that it stands in front of. -/
theorem lex_text_append {t : Token} {rest : List Char} (h : t.WellFormed)
    (hrest : t.EndsBefore rest) : lex (t.text.toList ++ rest) = t :: lex rest := by
  obtain ⟨c, cs, hcs, hc, hgo⟩ := h
  rw [hcs, List.cons_append, lex]
  cases t with
  | mark m =>
    simp only [text, String.toList_singleton, List.cons.injEq] at hcs
    obtain ⟨rfl, rfl⟩ := hcs
    simp [first?]
  -- A run of characters is taken as far as it goes, and that is to where `rest` begins
  | digits s =>
    obtain ⟨htoken, hrun⟩ := first?_run isDigit digits (c := c) hgo hrest
    have hmark : Mark.ofChar? c = none := ofChar?_of_goesOn (t := digits s) hc
    have hs : String.ofList (c :: cs) = s := by rw [← hcs]; simp [text]
    simp only [starts] at hc
    simp [first?, hmark, hc, htoken, hrun, hs]
  | word s =>
    obtain ⟨htoken, hrun⟩ := first?_run continuesWord word (c := c) hgo hrest
    have hmark : Mark.ofChar? c = none :=
      ofChar?_of_goesOn (t := word s)
        (by simp only [starts] at hc; simp [goesOn, continuesWord, hc])
    have hs : String.ofList (c :: cs) = s := by rw [← hcs]; simp [text]
    simp only [starts] at hc
    simp [first?, hmark, not_digit_of_startsWord hc, hc, htoken, hrun, hs]
  -- What starts such a run is neither a mark nor a digit, nor does it start a word
  | other s =>
    obtain ⟨htoken, hrun⟩ := first?_run isOther other (c := c) hgo hrest
    have hs : String.ofList (c :: cs) = s := by rw [← hcs]; simp [text]
    simp only [starts, isOther, continuesWord, Bool.and_eq_true, Bool.not_eq_true',
      Bool.or_eq_false_iff, Option.isNone_iff_eq_none] at hc
    simp [first?, hc.2, hc.1.1, hc.1.2, htoken, hrun, hs]

theorem endsBefore_mark (m : Mark) (rest : List Char) : (mark m).EndsBefore rest := by
  simp [EndsBefore, goesOn]

theorem lex_mark (m : Mark) (rest : List Char) : lex (m.char :: rest) = mark m :: lex rest := by
  simpa [text] using lex_text_append (wellFormed_mark m) (endsBefore_mark m rest)

theorem lex_braceClose (rest : List Char) : lex ('}' :: rest) = mark .braceClose :: lex rest :=
  lex_mark .braceClose rest

/-- Every text is empty or a well-formed token stands in front of the rest of it. -/
theorem exists_first (cs : List Char) :
    cs = [] ∨ ∃ t rest, WellFormed t ∧ t.EndsBefore rest ∧ cs = t.text.toList ++ rest := by
  cases cs with
  | nil => exact Or.inl rfl
  | cons c cs =>
    right
    -- The three kinds of runs differ in the class of characters only
    have run : ∀ t : Token, t.starts c → t.text = String.ofList (c :: cs.takeWhile t.goesOn) →
        ∃ t rest, WellFormed t ∧ t.EndsBefore rest ∧ c :: cs = t.text.toList ++ rest := by
      intro t hc htext
      refine ⟨t, cs.dropWhile t.goesOn, ⟨c, cs.takeWhile t.goesOn, by simp [htext], hc, ?_⟩, ?_, ?_⟩
      · intro x hx
        exact List.all_eq_true.1 List.all_takeWhile x hx
      · intro x hx
        have := List.head?_dropWhile_not t.goesOn cs
        cases hd : cs.dropWhile t.goesOn with
        | nil => simp [hd] at hx
        | cons y ys => simp_all
      · simp [htext, List.takeWhile_append_dropWhile]
    -- The first character tells the kind of the token: a mark is one by itself, and all other
    -- characters begin a run
    cases hm : Mark.ofChar? c with
    | some m =>
      obtain rfl := Mark.ofChar?_eq_some.1 hm
      exact ⟨mark m, cs, wellFormed_mark m, endsBefore_mark m cs, by simp [text]⟩
    | none =>
      by_cases hd : isDigit c
      · exact run (digits (String.ofList (c :: cs.takeWhile isDigit))) hd rfl
      by_cases hw : startsWord c
      · exact run (word (String.ofList (c :: cs.takeWhile continuesWord))) hw rfl
      · refine run (other (String.ofList (c :: cs.takeWhile isOther))) ?_ rfl
        simp [starts, isOther, continuesWord, hd, hw, hm]

/-! ## Induction along the tokens -/

/-- What holds of the empty text, and of a text with one more token in front if it holds of the
text, holds of all texts. -/
@[elab_as_elim]
theorem lex_induction {P : List Char → Prop} (nil : P [])
    (token : ∀ t rest, WellFormed t → t.EndsBefore rest → P rest → P (t.text.toList ++ rest))
    (cs : List Char) : P cs := by
  rcases exists_first cs with rfl | ⟨t, rest, ht, hrest, rfl⟩
  · exact nil
  -- The rest is shorter, since a token has a first character
  · have : rest.length < (t.text.toList ++ rest).length := by
      obtain ⟨c, cs, hcs, -⟩ := ht
      simp only [hcs, List.cons_append, List.length_cons, List.length_append]
      omega
    exact token t rest ht hrest (lex_induction nil token rest)
termination_by cs.length

theorem wellFormed_of_mem_lex {cs : List Char} {t : Token} (h : t ∈ lex cs) : t.WellFormed := by
  induction cs using lex_induction with
  | nil => simp at h
  | token u rest hu hrest ih =>
    rw [lex_text_append hu hrest] at h
    rcases List.mem_cons.1 h with rfl | h
    · exact hu
    · exact ih h

/-- The first token of a text stands in front of it, and the tokens after it are those of the rest. -/
theorem of_lex_cons {cs : List Char} {t : Token} {us : List Token} (h : lex cs = t :: us) :
    ∃ rest, cs = t.text.toList ++ rest ∧ t.EndsBefore rest ∧ us = lex rest := by
  rcases exists_first cs with rfl | ⟨u, rest, hu, hrest, rfl⟩
  · simp at h
  · rw [lex_text_append hu hrest] at h
    obtain ⟨rfl, rfl⟩ := List.cons.inj h
    exact ⟨rest, rfl, hrest, rfl⟩

/-- The first token of a text begins with its first character. -/
theorem head?_of_lex {cs : List Char} {t : Token} {ts : List Token} (h : lex cs = t :: ts) :
    t.text.toList.head? = cs.head? := by
  rcases exists_first cs with rfl | ⟨u, rest, hu, hrest, rfl⟩
  · simp at h
  · rw [lex_text_append hu hrest] at h
    obtain ⟨rfl, -⟩ := List.cons.inj h
    obtain ⟨c, cs, hcs, -⟩ := hu
    simp [hcs]

theorem ofList_text_append (t : Token) (cs : List Char) :
    String.ofList (t.text.toList ++ cs) = t.text ++ String.ofList cs :=
  String.toList_injective (by simp)

theorem ofList_char_cons (c : Char) (cs : List Char) :
    String.ofList (c :: cs) = String.singleton c ++ String.ofList cs :=
  String.toList_injective (by simp)

/-! ## Escaped texts -/

/-- Characters with a backslash before each special one. -/
def escapeChars (special : Char → Bool) (cs : List Char) : List Char :=
  cs.flatMap fun c => if special c then ['\\', c] else [c]

@[simp] theorem toList_escapeWhere (special : Char → Bool) (s : String) :
    (escapeWhere special s).toList = escapeChars special s.toList := by
  simp [escapeWhere, escapeChars]

@[simp] theorem toList_escapeWith (special : Char → Bool) (s : String) :
    (FormatString.escapeWith special s).toList = escapeChars special s.toList := by
  simp [FormatString.escapeWith, escapeChars]

@[simp] theorem escapeChars_nil (special : Char → Bool) : escapeChars special [] = [] := rfl

theorem escapeChars_cons (special : Char → Bool) (c : Char) (cs : List Char) :
    escapeChars special (c :: cs) =
      (if special c then ['\\', c] else [c]) ++ escapeChars special cs := rfl

theorem escapeChars_append (special : Char → Bool) (cs ds : List Char) :
    escapeChars special (cs ++ ds) = escapeChars special cs ++ escapeChars special ds := by
  simp [escapeChars]

theorem escapeChars_of_not_special {special : Char → Bool} {cs : List Char}
    (h : ∀ c ∈ cs, special c = false) : escapeChars special cs = cs := by
  induction cs with
  | nil => rfl
  | cons c cs ih =>
    rw [escapeChars_cons, ih fun x hx => h x (List.mem_cons_of_mem _ hx)]
    simp [h c (List.mem_cons_self ..)]

/-- Characters that may be escaped: all are marks, and the backslash is one of them. -/
structure Escaping (special : Char → Bool) : Prop where
  isMark : ∀ c, special c → (Mark.ofChar? c).isSome
  backslash : special '\\'

/-- The tokens of an escaped text: a special character comes with its backslash, and any other token
stands for its text. -/
inductive Escapes (special : Char → Bool) : List Char → List Token → Prop where
  | nil : Escapes special [] []
  | mark (m : Mark) {cs : List Char} {ts : List Token} :
      special m.char → Escapes special cs ts →
      Escapes special (m.char :: cs) (mark .backslash :: mark m :: ts)
  | plain (t : Token) {cs : List Char} {ts : List Token} :
      t.WellFormed → (∀ m, t = mark m → special m.char = false) → Escapes special cs ts →
      Escapes special (t.text.toList ++ cs) (t :: ts)

theorem endsBefore_escapeChars {special : Char → Bool} {t : Token}
    {cs rest : List Char} (hcs : t.EndsBefore cs) (hrest : Breaks rest) :
    t.EndsBefore (escapeChars special cs ++ rest) := by
  refine EndsBefore.append ?_ hrest
  -- An escaped text begins as the text does, or with a backslash
  cases cs with
  | nil => exact endsBefore_nil t
  | cons c cs =>
    rw [escapeChars_cons]
    split
    · exact (breaks_mark .backslash _).endsBefore t
    · exact endsBefore_cons.2 (endsBefore_cons.1 hcs)

/-- An escaped text is cut at the same places as the text itself, whatever breaks it off. -/
theorem lex_escapeChars {special : Char → Bool} (hs : Escaping special) (cs : List Char)
    {rest : List Char} (hrest : Breaks rest) :
    ∃ ts, Escapes special cs ts ∧ lex (escapeChars special cs ++ rest) = ts ++ lex rest := by
  -- The tokens are those of the text itself, with a backslash before each one that is special
  induction cs using lex_induction with
  | nil => exact ⟨[], .nil, by simp⟩
  | token t cs ht hcs ih =>
    obtain ⟨ts, hts, hlex⟩ := ih
    by_cases hspecial : ∃ m, t = mark m ∧ special m.char
    -- A special character is a mark, so it and its backslash are tokens of their own
    · obtain ⟨m, rfl, hm⟩ := hspecial
      refine ⟨mark .backslash :: mark m :: ts, ?_, ?_⟩
      · simpa [text] using Escapes.mark m hm hts
      · have : escapeChars special ((mark m).text.toList ++ cs) ++ rest =
            Mark.backslash.char :: m.char :: (escapeChars special cs ++ rest) := by
          simp only [text, String.toList_singleton, List.singleton_append, escapeChars_cons, hm]
          rfl
        rw [this, lex_mark, lex_mark, hlex]
        rfl
    -- None of the characters of any other token is special, so it is written as it is
    · have plain : ∀ m, t = mark m → special m.char = false := by
        intro m hm
        exact Bool.eq_false_iff.2 fun h => hspecial ⟨m, hm, h⟩
      refine ⟨t :: ts, .plain t ht plain hts, ?_⟩
      have : ∀ c ∈ t.text.toList, special c = false := by
        intro c hc
        apply Bool.eq_false_iff.2
        intro h
        have hc' := hs.isMark c h
        cases t with
        | mark m =>
          simp only [text, String.toList_singleton, List.mem_singleton] at hc
          simp [hc, plain m rfl] at h
        | digits | word | other => simp [ht.not_isMark (by simp) c hc] at hc'
      rw [escapeChars_append, escapeChars_of_not_special this, List.append_assoc,
        lex_text_append ht (endsBefore_escapeChars hcs hrest), hlex]
      rfl

/-! ## Numbers -/

theorem ofDigits_toString (n : Nat) : Decimal.ofDigits (toString n).toList = n := by
  have : (toString n).toList = Nat.toDigits 10 n := by simp
  rw [this, Decimal.ofDigits, ← Nat.ofDigitChars_eq_foldl, Nat.ofDigitChars_ten_toDigits]

theorem wellFormed_digits (n : Nat) : (digits (toString n)).WellFormed := by
  have hdigits : ∀ c ∈ Nat.toDigits 10 n, isDigit c := by
    intro c hc
    have := Nat.isDigit_of_mem_toDigits (by decide) (by decide) hc
    simp only [Char.isDigit, Bool.and_eq_true, decide_eq_true_eq] at this
    simp only [isDigit, Bool.and_eq_true, decide_eq_true_eq]
    exact this
  obtain ⟨c, cs, hcs⟩ := List.exists_cons_of_ne_nil (Nat.toDigits_ne_nil (n := n) (b := 10))
  refine ⟨c, cs, by simp [text, hcs], ?_, ?_⟩
  · exact hdigits c (by simp [hcs])
  · intro x hx
    exact hdigits x (by simp [hcs, hx])

/-- The digits of a number are one token, unless another digit follows. -/
theorem lex_number (n : Nat) {rest : List Char} (h : ∀ c ∈ rest.head?, isDigit c = false) :
    lex ((toString n).toList ++ rest) = digits (toString n) :: lex rest := by
  have hends : (digits (toString n)).EndsBefore rest := h
  have := lex_text_append (wellFormed_digits n) hends
  rwa [text] at this

end Token

end TabStop
